import StackLang.Proofs.Source.Blocks
import StackLang.Proofs.Source.Steps

/-!
# Well nested scripts

A script is a row of statements that are nested as their keywords say: writes, branches with and
without an `else`, loops and functions without parameters, to any depth. Parsing accepts each of
them, and the labels of its statements are the ones of the blocks that the script has: an end
closes what its own block opened last. A statement that opens or closes a block changes two
stacks, so the induction over scripts is for a parse with any blocks and labels open around it.
-/

namespace StackLang.Source

/-- A row of statements. Each form has the statements behind it as its last part. -/
inductive Script where
  | done
  | write (value : Nat) (rest : Script)
  | branch (condition : Nat) (body rest : Script)
  | alternative (condition : Nat) (body other rest : Script)
  | loop (condition : Nat) (body rest : Script)
  | function (name : String) (type : DataType) (body rest : Script)
deriving Repr

namespace Script

/-- A script as it is written. -/
def kinds : Script → List TokenKind
  | done => []
  | write value rest => .keyword .writeWord :: .integer value :: rest.kinds
  | branch condition body rest =>
    .keyword .ifWord :: .integer condition :: .keyword .thenWord :: body.kinds ++
      .keyword .endWord :: rest.kinds
  | alternative condition body other rest =>
    .keyword .ifWord :: .integer condition :: .keyword .thenWord :: body.kinds ++
      .keyword .elseWord :: other.kinds ++ .keyword .endWord :: rest.kinds
  | loop condition body rest =>
    .keyword .whileWord :: .integer condition :: .keyword .thenWord :: body.kinds ++
      .keyword .endWord :: rest.kinds
  | function name type body rest =>
    .ident name :: .mark .openParen :: .mark .closeParen :: .mark .colon :: .type type ::
      body.kinds ++ .keyword .endWord :: rest.kinds

/-- The statements of a script, and the labels that they open in order. An end has the label that
was opened last in its own block, and so has an `else`. -/
inductive Renders : Script → List Statement → List Nat → Prop where
  | done : Renders .done [] []
  | write {value : Nat} {rest : Script} {id : ExprId} {ss : List Statement} {labels : List Nat}
      (behind : Renders rest ss labels) :
      Renders (.write value rest) (.native .write id :: ss) labels
  | branch {condition l : Nat} {body rest : Script} {id : ExprId} {bs ss : List Statement}
      {inside labels : List Nat} (within : Renders body bs inside)
      (behind : Renders rest ss labels) :
      Renders (.branch condition body rest)
        (.ifThen id :: .opening l :: bs ++ .closing l :: ss) (l :: inside ++ labels)
  | alternative {condition l m : Nat} {body other rest : Script} {id : ExprId}
      {bs os ss : List Statement} {inside instead labels : List Nat}
      (within : Renders body bs inside) (against : Renders other os instead)
      (behind : Renders rest ss labels) :
      Renders (.alternative condition body other rest)
        (.ifThen id :: .opening l :: bs ++ .otherwise l m :: os ++ .closing m :: ss)
        (l :: inside ++ m :: instead ++ labels)
  | loop {condition l : Nat} {body rest : Script} {id : ExprId} {bs ss : List Statement}
      {inside labels : List Nat} (within : Renders body bs inside)
      (behind : Renders rest ss labels) :
      Renders (.loop condition body rest)
        (.whileThen id :: .opening l :: bs ++ .closing l :: ss) (l :: inside ++ labels)
  | function {name : String} {type : DataType} {l : Nat} {body rest : Script}
      {bs ss : List Statement} {inside labels : List Nat} (within : Renders body bs inside)
      (behind : Renders rest ss labels) :
      Renders (.function name type body rest)
        (.function ⟨name, [], type, l⟩ :: bs ++ .closing l :: ss) (l :: inside ++ labels)

end Script

/-! ## Single statements -/

/-- Where a parse is, as far as blocks are concerned. -/
structure ParseState.At (s : ParseState) (rest : List TokenKind) (blocks : List Block)
    (labels : List Nat) (nextLabel : Nat) (items : List Statement) : Prop where
  rest : s.rest.map Token.kind = rest
  blocks : s.blocks = blocks
  labels : s.labels = labels
  nextLabel : s.nextLabel = nextLabel
  items : s.program.items = items

namespace Parse

variable {s t u : ParseState}

/-- Some statements take the parse `s` to `t`, with whatever limit. -/
def Runs (s t : ParseState) : Prop :=
  ∃ n, n + t.rest.length ≤ s.rest.length ∧
    ∀ limit, (statements (limit + n)).run s = (statements limit).run t

namespace Runs

theorem refl (s : ParseState) : Runs s s := ⟨0, by simp, fun _ => rfl⟩

theorem trans (h : Runs s t) (h' : Runs t u) : Runs s u := by
  obtain ⟨n, taken, run⟩ := h
  obtain ⟨m, taken', run'⟩ := h'
  refine ⟨m + n, by omega, fun limit => ?_⟩
  rw [← Nat.add_assoc, run, run']

/-- A single statement. -/
theorem of_statement {first : Token} {more : List Token} (head : s.rest = first :: more)
    (run : ∀ limit, (statement first (limit + 1)).run s = .ok ((), t))
    (taken : t.rest.length ≤ more.length) : Runs s t := by
  refine ⟨1, by simp [head]; omega, fun limit => ?_⟩
  have read : (get : Parse ParseState).run s = .ok (s, s) := rfl
  rw [statements, run_bind_of_ok read, head]
  exact run_bind_of_ok (run limit)

/-- A parse that comes to the end of its tokens. -/
theorem parse_eq {tokens : List Token} (h : Runs (start tokens) t) (finished : t.rest = []) :
    parse tokens = .ok t.program := by
  obtain ⟨n, taken, run⟩ := h
  obtain ⟨limit, length⟩ : ∃ limit, tokens.length = limit + n :=
    ⟨tokens.length - n, (Nat.sub_add_cancel (Nat.le_trans (Nat.le_add_right _ _) taken)).symm⟩
  rw [parse, length, run, run_statements_of_nil finished]
  rfl

end Runs

/-! ## Statements of a script -/

/-- Whether no operator comes next. -/
def NoMark (kinds : List TokenKind) : Prop := ∀ m, kinds.head? ≠ some (.mark m)

theorem run_climb {operand : Parse ExprId} {limit : Nat} {left : ExprId} {least : Nat}
    (h : NoMark (s.rest.map Token.kind)) :
    (climb operand limit left least).run s = .ok (left, s) := by
  apply run_climb_of_loose
  intro op next
  unfold operatorOf? at next
  split at next
  · rename_i m head
    exact absurd head (h m)
  · cases next

/-- An integer in front of a statement is an expression of its own. -/
theorem run_integer {n : Nat} {loc : Location} {more : List Token} (limit : Nat)
    (head : s.rest = ⟨.integer n, loc⟩ :: more) (h : NoMark (more.map Token.kind)) :
    (expression (limit + 1)).run s = .ok (s.program.exprs.size, { s with
      rest := more
      program := { s.program with
        exprs := (s.program.exprs.alloc ⟨.integer n, .int, loc⟩).2 } }) := by
  rw [expression, operand, bind_assoc, run_bind_of_ok (run_next head)]
  exact (run_bind_of_ok rfl).trans (run_climb h)

section

variable {kinds : List TokenKind} {blocks : List Block} {labels : List Nat} {next n : Nat}
  {items : List Statement}

theorem length_of_at (h : s.At kinds blocks labels next items) : s.rest.length = kinds.length := by
  rw [← h.rest, List.length_map]

/-- The first token. -/
theorem head_of_at {kind : TokenKind} (h : s.At (kind :: kinds) blocks labels next items) :
    ∃ loc more, s.rest = ⟨kind, loc⟩ :: more ∧
      ({ s with rest := more } : ParseState).At kinds blocks labels next items := by
  obtain ⟨⟨_, loc⟩, more, head, rfl, rest⟩ := List.map_eq_cons_iff.1 h.rest
  exact ⟨loc, more, head, { h with rest }⟩

theorem at_emit (h : s.At kinds blocks labels next items) (loc : Location) (st : Statement) :
    (s.emit loc st).At kinds blocks labels next (items ++ [st]) :=
  ⟨h.rest, h.blocks, h.labels, h.nextLabel, by rw [ParseState.items_emit, h.items]⟩

theorem at_of_eq {next' : Nat} {items' : List Statement}
    (h : s.At kinds blocks labels next items) (hn : next = next') (hi : items = items') :
    s.At kinds blocks labels next' items' := hn ▸ hi ▸ h

/-- A statement that passes over its first token and then goes on as `f`. -/
theorem exists_runs {kind : TokenKind} {f : Location → Nat → Parse Unit}
    {post : ParseState → Prop} (h : s.At (kind :: kinds) blocks labels next items)
    (opens : ∀ loc limit, statement ⟨kind, loc⟩ limit = skip 1 >>= fun _ => f loc limit)
    (run : ∀ loc u, ParseState.At u kinds blocks labels next items →
      ∃ t, (∀ limit, (f loc (limit + 1)).run u = .ok ((), t)) ∧
        t.rest.length ≤ kinds.length ∧ post t) :
    ∃ t, Runs s t ∧ post t := by
  obtain ⟨loc, more, head, passed⟩ := head_of_at h
  obtain ⟨t, run, taken, reached⟩ := run loc _ passed
  refine ⟨t, .of_statement head (fun limit => ?_) ?_, reached⟩
  · rw [opens, run_bind_of_ok (run_skip head), run limit]
  · rwa [← length_of_at passed] at taken

/-- An integer, and the statement that is made of it. -/
theorem exists_run_value (h : s.At (.integer n :: kinds) blocks labels next items)
    (stops : NoMark kinds) (f : ExprId → Statement) (loc : Location) :
    ∃ t, (∀ limit, (expression (limit + 1) >>= fun value => emit loc (f value)).run s =
      .ok ((), t)) ∧ t.rest.length ≤ (TokenKind.integer n :: kinds).length ∧
      ∃ id, t.At kinds blocks labels next (items ++ [f id]) := by
  obtain ⟨place, more, head, passed⟩ := head_of_at h
  have stops : NoMark (more.map Token.kind) := by rwa [passed.rest]
  have reached : ({ s with
      rest := more
      program := { s.program with
        exprs := (s.program.exprs.alloc ⟨.integer n, .int, place⟩).2 } } : ParseState).At
      kinds blocks labels next items := { passed with }
  have reached := at_emit reached loc (f s.program.exprs.size)
  refine ⟨_, fun limit => run_bind_of_ok (run_integer limit head stops), ?_, _, reached⟩
  exact Nat.le_succ_of_le (Nat.le_of_eq (length_of_at reached))

theorem exists_runs_write
    (h : s.At (.keyword .writeWord :: .integer n :: kinds) blocks labels next items)
    (stops : NoMark kinds) :
    ∃ t, Runs s t ∧ ∃ id, t.At kinds blocks labels next (items ++ [.native .write id]) :=
  exists_runs h (fun _ _ => rfl) fun loc _ passed =>
    exists_run_value passed stops (.native .write) loc

/-- `if` or `while` with its condition. -/
theorem exists_runs_condition {k : Keyword} {block : Block} {f : ExprId → Statement}
    (opens : ∀ loc limit, statement ⟨.keyword k, loc⟩ limit = skip 1 >>= fun _ =>
      enter block >>= fun _ => expression limit >>= fun value => emit loc (f value))
    (h : s.At (.keyword k :: .integer n :: kinds) blocks labels next items)
    (stops : NoMark kinds) :
    ∃ t, Runs s t ∧ ∃ id, t.At kinds (block :: blocks) labels next (items ++ [f id]) := by
  refine exists_runs h opens fun loc u passed => ?_
  have entered : (u.enter block).At (.integer n :: kinds) (block :: blocks) labels next items :=
    { passed with blocks := congrArg (block :: ·) passed.blocks }
  obtain ⟨t, run, reached⟩ := exists_run_value entered stops f loc
  exact ⟨t, fun limit => (run_bind_of_ok rfl).trans (run limit), reached⟩

theorem exists_runs_then (h : s.At (.keyword .thenWord :: kinds) blocks labels next items) :
    ∃ t, Runs s t ∧
      t.At kinds blocks (next :: labels) (next + 1) (items ++ [.opening next]) := by
  refine exists_runs h (fun _ _ => rfl) fun loc u passed => ?_
  have opened : ParseState.At { u with labels := next :: u.labels, nextLabel := next + 1 }
      kinds blocks (next :: labels) (next + 1) items :=
    ⟨passed.rest, passed.blocks, congrArg (next :: ·) passed.labels, rfl, passed.items⟩
  have reached := at_emit opened loc (.opening next)
  refine ⟨_, fun limit => ?_, Nat.le_of_eq (length_of_at reached), reached⟩
  rw [← passed.nextLabel]
  rfl

theorem exists_runs_else {l : Nat}
    (h : s.At (.keyword .elseWord :: kinds) (.branch :: blocks) (l :: labels) next items) :
    ∃ t, Runs s t ∧ t.At kinds (.otherwise :: blocks) (next :: labels) (next + 1)
      (items ++ [.otherwise l next]) := by
  refine exists_runs h (f := fun loc _ => elseStatement loc) (fun _ _ => rfl)
    fun loc u passed => ?_
  have changed : ParseState.At { u with
      blocks := .otherwise :: blocks, labels := next :: labels, nextLabel := next + 1 }
      kinds (.otherwise :: blocks) (next :: labels) (next + 1) items :=
    ⟨passed.rest, rfl, rfl, rfl, passed.items⟩
  have reached := at_emit changed loc (.otherwise l next)
  refine ⟨_, fun limit => ?_, Nat.le_of_eq (length_of_at reached), reached⟩
  have read : (get : Parse ParseState).run u = .ok (u, u) := rfl
  rw [elseStatement, run_bind_of_ok read, passed.blocks, passed.labels, ← passed.nextLabel]
  rfl

theorem exists_runs_end {block : Block} {l : Nat}
    (h : s.At (.keyword .endWord :: kinds) (block :: blocks) (l :: labels) next items) :
    ∃ t, Runs s t ∧ t.At kinds blocks labels next (items ++ [.closing l]) := by
  refine exists_runs h (f := fun loc _ => endStatement loc) (fun _ _ => rfl)
    fun loc u passed => ?_
  have changed : ParseState.At { u with blocks, labels } kinds blocks labels next items :=
    ⟨passed.rest, rfl, rfl, passed.nextLabel, passed.items⟩
  have reached := at_emit changed loc (.closing l)
  refine ⟨_, fun limit => ?_, Nat.le_of_eq (length_of_at reached), reached⟩
  have read : (get : Parse ParseState).run u = .ok (u, u) := rfl
  rw [endStatement, run_bind_of_ok read, passed.blocks, passed.labels]
  rfl

theorem exists_runs_function {name : String} {type : DataType}
    (h : s.At (.ident name :: .mark .openParen :: .mark .closeParen :: .mark .colon ::
      .type type :: kinds) blocks labels next items) :
    ∃ t, Runs s t ∧ t.At kinds (.function name :: blocks) (next :: labels) (next + 1)
      (items ++ [.function ⟨name, [], type, next⟩]) := by
  obtain ⟨⟨_, loc⟩, _, head, rfl, tail₁⟩ := List.map_eq_cons_iff.1 h.rest
  obtain ⟨⟨_, _⟩, _, rfl, rfl, tail₂⟩ := List.map_eq_cons_iff.1 tail₁
  obtain ⟨⟨_, _⟩, _, rfl, rfl, tail₃⟩ := List.map_eq_cons_iff.1 tail₂
  obtain ⟨⟨_, _⟩, _, rfl, rfl, tail₄⟩ := List.map_eq_cons_iff.1 tail₃
  obtain ⟨⟨_, _⟩, more, rfl, rfl, tail⟩ := List.map_eq_cons_iff.1 tail₄
  let f : Function := ⟨name, [], type, next⟩
  have entered : ParseState.At { s with
      rest := more
      blocks := .function name :: blocks
      labels := next :: labels
      nextLabel := next + 1
      program := { s.program with
        functions := s.program.functions.push f
        symbols := s.program.symbols.push (.function f) } }
      kinds (.function name :: blocks) (next :: labels) (next + 1) items :=
    ⟨tail, rfl, rfl, rfl, h.items⟩
  have reached := at_emit entered loc (.function f)
  refine ⟨_, .of_statement head (fun limit => ?_) ?_, reached⟩
  · obtain ⟨_, _, _, _, _, _⟩ := s
    cases head
    cases h.blocks
    cases h.labels
    cases h.nextLabel
    rfl
  · rw [length_of_at reached, ← tail]
    simp only [List.length_cons, List.length_map]
    omega

end

/-! ## Whole scripts -/

/-- Labels that are opened one after the other, from `first` on. -/
def Consecutive (first : Nat) (labels : List Nat) : Prop :=
  labels = List.range' first labels.length

namespace Consecutive

variable {first : Nat} {labels more : List Nat}

theorem nil (first : Nat) : Consecutive first [] := rfl

theorem cons (h : Consecutive (first + 1) labels) : Consecutive first (first :: labels) := by
  rw [Consecutive, List.length_cons, List.range'_succ]
  exact congrArg (first :: ·) h

theorem append (h : Consecutive first labels) (h' : Consecutive (first + labels.length) more) :
    Consecutive first (labels ++ more) := by
  rw [Consecutive, List.length_append, ← List.range'_append_1, ← h, ← h']

theorem nodup (h : Consecutive first labels) : labels.Nodup := by
  rw [h]
  exact List.nodup_range'

theorem le_of_mem (h : Consecutive first labels) {l : Nat} (mem : l ∈ labels) : first ≤ l := by
  rw [h] at mem
  exact (List.mem_range'_1.1 mem).1

end Consecutive

/-- Behind a script a parse has the statements that it renders and nothing else has changed,
whatever blocks and labels are open around it and whatever follows, as long as it is no operator. -/
def Parses (script : Script) : Prop :=
  ∀ ⦃s kinds blocks labels next items⦄,
    ParseState.At s (script.kinds ++ kinds) blocks labels next items → NoMark kinds →
    ∃ t out opened, Runs s t ∧ t.At kinds blocks labels (next + opened.length) (items ++ out) ∧
      script.Renders out opened ∧ Consecutive next opened

theorem noMark_keyword (k : Keyword) (kinds : List TokenKind) : NoMark (.keyword k :: kinds) := by
  simp [NoMark]

theorem noMark_append (script : Script) {kinds : List TokenKind} (stops : NoMark kinds) :
    NoMark (script.kinds ++ kinds) := by
  cases script <;> first | exact stops | simp [NoMark, Script.kinds]

theorem parses_done : Parses .done := by
  intro s kinds blocks labels next items h _
  exact ⟨s, [], [], .refl s, by simpa [Script.kinds] using h, .done, .nil next⟩

section

variable {value : Nat} {body other rest : Script}

theorem parses_write (hr : Parses rest) : Parses (.write value rest) := by
  intro s kinds blocks labels next items h stops
  obtain ⟨t, first, id, wrote⟩ := exists_runs_write h (noMark_append rest stops)
  obtain ⟨u, ss, opened, run, reached, renders, row⟩ := hr wrote stops
  refine ⟨u, .native .write id :: ss, opened, first.trans run, ?_, .write renders, row⟩
  simpa using reached

/-- The body of a block up to its end, and the script behind it. -/
theorem exists_runs_body {s : ParseState} {kinds : List TokenKind} {block : Block}
    {blocks : List Block} {labels : List Nat} {l next : Nat} {items : List Statement}
    (hb : Parses body) (hr : Parses rest)
    (h : s.At (body.kinds ++ .keyword .endWord :: (rest.kinds ++ kinds)) (block :: blocks)
      (l :: labels) next items) (stops : NoMark kinds) :
    ∃ t bs ss inside behind, Runs s t ∧
      t.At kinds blocks labels (next + (inside ++ behind).length)
        (items ++ (bs ++ .closing l :: ss)) ∧
      body.Renders bs inside ∧ rest.Renders ss behind ∧ Consecutive next (inside ++ behind) := by
  obtain ⟨t, bs, inside, first, within, renders, row⟩ := hb h (noMark_keyword _ _)
  obtain ⟨u, last, closed⟩ := exists_runs_end within
  obtain ⟨v, ss, behind, run, reached, renders', row'⟩ := hr closed stops
  refine ⟨v, bs, ss, inside, behind, first.trans (last.trans run), ?_, renders, renders',
    row.append row'⟩
  exact at_of_eq reached (by simp only [List.length_append]; omega) (by simp)

theorem parses_branch (hb : Parses body) (hr : Parses rest) : Parses (.branch value body rest) := by
  intro s kinds blocks labels next items h stops
  simp only [Script.kinds, List.cons_append, List.append_assoc] at h
  obtain ⟨t, first, id, tested⟩ := exists_runs_condition (fun _ _ => rfl) h (noMark_keyword _ _)
  obtain ⟨u, second, opened⟩ := exists_runs_then tested
  obtain ⟨v, bs, ss, inside, behind, run, reached, within, after, row⟩ :=
    exists_runs_body hb hr opened stops
  refine ⟨v, .ifThen id :: .opening next :: bs ++ .closing next :: ss, next :: inside ++ behind,
    first.trans (second.trans run), ?_, .branch within after, row.cons⟩
  exact at_of_eq reached (by simp only [List.length_cons, List.length_append]; omega) (by simp)

theorem parses_loop (hb : Parses body) (hr : Parses rest) : Parses (.loop value body rest) := by
  intro s kinds blocks labels next items h stops
  simp only [Script.kinds, List.cons_append, List.append_assoc] at h
  obtain ⟨t, first, id, tested⟩ := exists_runs_condition (fun _ _ => rfl) h (noMark_keyword _ _)
  obtain ⟨u, second, opened⟩ := exists_runs_then tested
  obtain ⟨v, bs, ss, inside, behind, run, reached, within, after, row⟩ :=
    exists_runs_body hb hr opened stops
  refine ⟨v, .whileThen id :: .opening next :: bs ++ .closing next :: ss, next :: inside ++ behind,
    first.trans (second.trans run), ?_, .loop within after, row.cons⟩
  exact at_of_eq reached (by simp only [List.length_cons, List.length_append]; omega) (by simp)

theorem parses_function {name : String} {type : DataType} (hb : Parses body) (hr : Parses rest) :
    Parses (.function name type body rest) := by
  intro s kinds blocks labels next items h stops
  simp only [Script.kinds, List.cons_append, List.append_assoc] at h
  obtain ⟨t, first, opened⟩ := exists_runs_function h
  obtain ⟨u, bs, ss, inside, behind, run, reached, within, after, row⟩ :=
    exists_runs_body hb hr opened stops
  refine ⟨u, .function ⟨name, [], type, next⟩ :: bs ++ .closing next :: ss,
    next :: inside ++ behind, first.trans run, ?_, .function within after, row.cons⟩
  exact at_of_eq reached (by simp only [List.length_cons, List.length_append]; omega) (by simp)

/-- The `else` is an end and a `then` in one: it closes the label of the first body and opens the
one of the second. -/
theorem parses_alternative (hb : Parses body) (ho : Parses other) (hr : Parses rest) :
    Parses (.alternative value body other rest) := by
  intro s kinds blocks labels next items h stops
  simp only [Script.kinds, List.cons_append, List.append_assoc] at h
  obtain ⟨t, first, id, tested⟩ := exists_runs_condition (fun _ _ => rfl) h (noMark_keyword _ _)
  obtain ⟨u, second, opened⟩ := exists_runs_then tested
  obtain ⟨v, bs, inside, third, ended, within, row⟩ := hb opened (noMark_keyword _ _)
  obtain ⟨w, fourth, turned⟩ := exists_runs_else ended
  obtain ⟨x, os, ss, instead, behind, run, reached, against, after, row'⟩ :=
    exists_runs_body ho hr turned stops
  refine ⟨x, .ifThen id :: .opening next :: bs ++
      .otherwise next (next + 1 + inside.length) :: os ++
        .closing (next + 1 + inside.length) :: ss,
    next :: inside ++ (next + 1 + inside.length) :: instead ++ behind,
    first.trans (second.trans (third.trans (fourth.trans run))), ?_,
    .alternative within against after, ?_⟩
  · exact at_of_eq reached (by simp only [List.length_cons, List.length_append]; omega) (by simp)
  · simpa using (row.append row'.cons).cons

end

theorem parses_script (script : Script) : Parses script := by
  induction script with
  | done => exact parses_done
  | write value rest hr => exact parses_write hr
  | branch condition body rest hb hr => exact parses_branch hb hr
  | alternative condition body other rest hb ho hr => exact parses_alternative hb ho hr
  | loop condition body rest hb hr => exact parses_loop hb hr
  | function name type body rest hb hr => exact parses_function hb hr

end Parse

/-- **Scripts are accepted.** An end has the label that its block opened last, and no two labels
of the whole script are the same. -/
theorem parse_script (script : Script) {tokens : List Token}
    (h : tokens.map Token.kind = script.kinds) :
    ∃ p opened, parse tokens = .ok p ∧ script.Renders p.items opened ∧ opened.Nodup ∧
      0 ∉ opened := by
  have start : (Parse.start tokens).At (script.kinds ++ []) [] [] 1 [] :=
    ⟨by rw [List.append_nil, ← h]; rfl, rfl, rfl, rfl, rfl⟩
  obtain ⟨t, out, opened, run, reached, renders, row⟩ :=
    Parse.parses_script script start (by simp [Parse.NoMark])
  have parsed := Parse.Runs.parse_eq run (List.map_eq_nil_iff.1 reached.rest)
  refine ⟨t.program, opened, parsed, ?_, row.nodup, fun zero => ?_⟩
  · rw [reached.items]
    exact renders
  · exact absurd (row.le_of_mem zero) (by decide)

/-- A function with a loop in its body, whose branch has an `else` and is empty there. -/
def nestedScript : Script :=
  .function "f" .int
    (.loop 1 (.alternative 2 (.write 3 .done) .done .done) (.branch 4 .done .done))
    (.write 5 .done)

theorem parse_script_nested :
    let tokens := nestedScript.kinds.map fun kind => (⟨kind, default⟩ : Token)
    tokens.map Token.kind = nestedScript.kinds ∧
      ∃ p opened, parse tokens = .ok p ∧ nestedScript.Renders p.items opened ∧ opened.Nodup ∧
        0 ∉ opened := by
  have kinds : (nestedScript.kinds.map fun kind => (⟨kind, default⟩ : Token)).map Token.kind =
      nestedScript.kinds := by
    decide
  exact ⟨kinds, parse_script nestedScript kinds⟩

end StackLang.Source
