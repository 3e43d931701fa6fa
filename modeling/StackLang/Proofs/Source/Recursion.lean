import StackLang.Proofs.Source.Labels
import StackLang.Proofs.Source.Scopes

/-!
# Calls of the function that a parse is in

In the body of a function its name stands for two things. Names of parameters are looked up in the
latest function of the name, calls in the first one. Every function has a label of its own, so that
these are the same function exactly if there is only one of the name: recursion then resolves to
the function that is being defined. Behind a second declaration of the name it does not.
-/

namespace StackLang.Source

/-! ## Functions of one name -/

namespace Program

variable {p : Program} {name : String}

/-- The functions of the given name in the order of their declaration. -/
def functionsNamed (p : Program) (name : String) : List Function :=
  p.functions.toList.filter fun f => f.name == name

theorem function?_eq_head? (p : Program) (name : String) :
    p.function? name = (p.functionsNamed name).head? := by
  rw [function?, functionsNamed, List.head?_filter]

theorem latestFunction?_eq_getLast? (p : Program) (name : String) :
    p.latestFunction? name = (p.functionsNamed name).getLast? := by
  rw [latestFunction?, functionsNamed, ← List.head?_reverse, ← List.filter_reverse,
    List.head?_filter]

theorem exists_function? {f : Function} (h : p.latestFunction? name = some f) :
    ∃ first, p.function? name = some first := by
  rw [latestFunction?_eq_getLast?] at h
  rw [function?_eq_head?, ← Option.isSome_iff_exists, List.isSome_head?]
  exact List.ne_nil_of_mem (List.mem_of_getLast? h)

/-- Of functions without repetition the first one is the latest one only if it is the only one. -/
theorem first_eq_latest_iff {first latest : Function} (nodup : p.functions.toList.Nodup)
    (h : p.function? name = some first) (h' : p.latestFunction? name = some latest) :
    first = latest ↔ (p.functionsNamed name).length = 1 := by
  have distinct : (p.functionsNamed name).Nodup := nodup.filter _
  rw [function?_eq_head?] at h
  rw [latestFunction?_eq_getLast?] at h'
  match functions : p.functionsNamed name with
  | [] =>
    rw [functions] at h
    cases h
  | [f] =>
    rw [functions] at h h'
    cases h
    cases h'
    simp
  | f :: g :: more =>
    rw [functions] at h h' distinct
    cases h
    have last : latest ∈ g :: more := List.mem_of_getLast? (by simpa using h')
    have other : first ≠ latest := fun same => (List.nodup_cons.1 distinct).1 (same ▸ last)
    simp [other]

end Program

/-! ## What a call is checked against -/

namespace Parse

variable {s t : ParseState} {name : String}

theorem run_expr_of_state (id : ExprId) (s : ParseState) :
    (expr id).run s = .ok (s.program.expr id, s) := rfl

/-- Arguments that fit pass the check. -/
theorem run_checkArgs {α : Type} {loc : Location} {typeOf : α → DataType}
    {cause : α → Expr → Cause} {params : List α} {args : List ExprId}
    (fits : s.program.Fits typeOf params args) :
    (checkArgs name loc typeOf cause params args).run s = .ok ((), s) := by
  have length : params.length = args.length := fits.length_eq
  rw [checkArgs, if_neg (not_not.2 length)]
  clear length
  induction fits with
  | nil => rfl
  | cons meets _ ih =>
    rw [List.zip_cons_cons]
    refine (run_bind_of_ok (a := ()) ?_).trans ih
    dsimp only
    rw [run_bind_of_ok (run_expr_of_state _ s), if_pos meets]
    rfl

/-- A call looks its function up, reads arguments and goes on with those that fit. -/
theorem run_call_eq_ok_iff {β : Type} {inner : Parse ExprId} {limit : Nat} {loc : Location}
    {next : Function → List ExprId → Parse β} {f : Function}
    (found : s.program.function? name = some f) {b : β} :
    (do
      let f ← functionNamed name loc
      let args ← arguments inner limit
      checkCall name loc f args
      next f args).run s = .ok (b, t) ↔
    ∃ args u, (arguments inner limit).run s = .ok (args, u) ∧
      u.program.Fits Variable.type f.params args ∧ (next f args).run u = .ok (b, t) := by
  have named : (functionNamed name loc).run s = .ok (f, s) := by
    have read : program.run s = .ok (s.program, s) := rfl
    rw [functionNamed, run_bind_of_ok read, found]
    rfl
  rw [run_bind_of_ok named]
  constructor
  · intro h
    obtain ⟨args, u, listed, rest⟩ := run_bind_eq_ok_iff.1 h
    obtain ⟨_, u', checked, last⟩ := run_bind_eq_ok_iff.1 rest
    obtain ⟨rfl, fits⟩ := checkArgs_spec checked
    exact ⟨args, _, listed, fits, last⟩
  · rintro ⟨args, u, listed, fits, last⟩
    have checked : (checkCall name loc f args).run u = .ok ((), u) := run_checkArgs fits
    rw [run_bind_of_ok listed, run_bind_of_ok checked]
    exact last

/-- A call of `name` at `t` is checked against `f`, in an expression as well as in a statement: it
is accepted exactly if its arguments can be read and fit the parameters of `f`, and its value has
the type of `f`. -/
structure ChecksAgainst (t : ParseState) (name : String) (f : Function) : Prop where
  expression (isOpen : t.rest.head?.map Token.kind = some (.mark .openParen))
    (inner : Parse ExprId) (limit : Nat) (loc : Location) (id : ExprId) (u : ParseState) :
    (named inner limit name loc).run t = .ok (id, u) ↔
      ∃ args v, (arguments inner limit).run t = .ok (args, v) ∧
        v.program.Fits Variable.type f.params args ∧
        (newExpr (.call name args) f.returnType loc).run v = .ok (id, u)
  statement {behind : List Token} (closed : afterGroup? 0 (t.rest.drop 1) = some behind)
    (isCall : behind.head?.map Token.kind ≠ some (.mark .colon)) (limit : Nat) (loc : Location)
    (u : ParseState) :
    (callOrFunction name loc limit).run t = .ok ((), u) ↔
      ∃ args v, (arguments (Parse.expression limit) limit).run { t with rest := t.rest.drop 1 } =
          .ok (args, v) ∧
        v.program.Fits Variable.type f.params args ∧
        (emit loc (.call name args)).run v = .ok ((), u)

/-- Calls are checked against the first function of their name, unless the name is that of a
foreign function. -/
theorem checksAgainst_function? {f : Function} (found : t.program.function? name = some f)
    (notForeign : t.program.foreign? name = none) : ChecksAgainst t name f where
  expression isOpen inner limit loc id u := by
    have read : program.run t = .ok (t.program, t) := rfl
    have peeked : peek.run t = .ok (some (.mark .openParen), t) := by
      rw [← isOpen]
      rfl
    rw [named, run_bind_of_ok read, notForeign]
    dsimp only
    rw [run_bind_of_ok peeked, if_pos rfl]
    exact run_call_eq_ok_iff found
  statement {behind} closed isCall limit loc u := by
    have read : (get : Parse ParseState).run t = .ok (t, t) := rfl
    have skipped : (skip 1).run t = .ok ((), { t with rest := t.rest.drop 1 }) := rfl
    rw [callOrFunction, run_bind_of_ok read, closed]
    dsimp only
    rw [if_neg isCall, notForeign]
    refine (Eq.congr_left (run_bind_of_ok skipped)).trans ?_
    exact run_call_eq_ok_iff (s := { t with rest := t.rest.drop 1 }) found

/-- Two functions that a call is checked against accept the same arguments. -/
theorem ChecksAgainst.fits {f g : Function} {inner : Parse ExprId} {limit : Nat}
    {args : List ExprId} (h : ChecksAgainst s name f) (h' : ChecksAgainst s name g)
    (isOpen : s.rest.head?.map Token.kind = some (.mark .openParen))
    (listed : (arguments inner limit).run s = .ok (args, t))
    (fits : t.program.Fits Variable.type f.params args) :
    t.program.Fits Variable.type g.params args := by
  obtain ⟨id, u, made⟩ : ∃ id u, (newExpr (.call name args) f.returnType default).run t =
      .ok (id, u) := ⟨_, _, rfl⟩
  have called := (h.expression isOpen inner limit default id u).2 ⟨args, t, listed, fits, made⟩
  obtain ⟨args', t', listed', fits', -⟩ := (h'.expression isOpen inner limit default id u).1 called
  rw [listed] at listed'
  cases listed'
  exact fits'

/-! ## In the body of a function -/

/-- **What recursion resolves to.** In the body of a function its parameters are those of the
latest function of the name, while its calls are checked against the first one, wherever in a
statement they are. These are the same function exactly if it is the only one of its name. -/
theorem recursion_of_follows {tokens : List Token} (h : Follows (start tokens) s)
    (inside : s.function? = some name) :
    ∃ first latest, s.program.function? name = some first ∧
      s.program.latestFunction? name = some latest ∧ .function latest ∈ s.program.items ∧
      (∀ param v, latest.params.find? (fun w => w.name == param) = some v →
        s.program.resolve? s.function? param = some v) ∧
      (∀ t : ParseState, t.program.functions = s.program.functions →
        t.program.foreign? name = none → ChecksAgainst t name first) ∧
      (first = latest ↔ (s.program.functionsNamed name).length = 1) := by
  obtain ⟨f, mem, rfl⟩ := h.scoped.blocks name (ParseState.mem_blocks_of_function? inside)
  obtain ⟨latest, isLatest⟩ := Program.exists_latestFunction? mem
  obtain ⟨first, isFirst⟩ := Program.exists_function? isLatest
  obtain ⟨listed, -⟩ := h.scoped.functions latest (Program.latestFunction?_eq_some isLatest).1
  refine ⟨first, latest, isFirst, isLatest, listed, ?_, ?_, ?_⟩
  · intro param v found
    simp only [inside, Program.resolve?, Option.bind_some, isLatest, found, Option.some_or]
  · intro t same notForeign
    refine checksAgainst_function? ?_ notForeign
    rw [Program.function?, same]
    exact isFirst
  · exact Program.first_eq_latest_iff (labelled_of_follows h).nodup_functions isFirst isLatest

/-- `f(n: int): int return f(n) end`. -/
def recursiveTokens : List Token :=
  let kinds : List TokenKind := [
    .ident "f", .mark .openParen, .ident "n", .mark .colon, .type .int, .mark .closeParen,
    .mark .colon, .type .int,
    .keyword .returnWord, .ident "f", .mark .openParen, .ident "n", .mark .closeParen,
    .keyword .endWord]
  kinds.map fun kind => ⟨kind, default⟩

theorem recursion_of_follows_single :
    ∃ s, Follows (start recursiveTokens) s ∧ s.function? = some "f" ∧
      ∃ first latest, s.program.function? "f" = some first ∧
        s.program.latestFunction? "f" = some latest ∧ first = latest ∧
        ChecksAgainst { s with rest := s.rest.drop 2 } "f" latest := by
  have run : ((statements 1).run (start recursiveTokens)).map (fun r =>
      (r.2.function?, (r.2.program.functionsNamed "f").length, r.2.program.foreign? "f")) =
      .ok (some "f", 1, none) := by
    decide +kernel
  obtain ⟨⟨_, s⟩, ran, seen⟩ := map_eq_ok_iff.1 run
  obtain ⟨inside, single, notForeign⟩ : s.function? = some "f" ∧
      (s.program.functionsNamed "f").length = 1 ∧ s.program.foreign? "f" = none := by
    simpa using seen
  have follows : Follows (start recursiveTokens) s := Follows.refl.statements ran
  obtain ⟨first, latest, isFirst, isLatest, -, -, checks, same⟩ :=
    recursion_of_follows follows inside
  obtain rfl := same.2 single
  exact ⟨s, follows, inside, first, first, isFirst, isLatest, rfl, checks _ rfl notForeign⟩

/-- `f(): int return 1 end`, `f(a: int): int return`, a call and `end`. -/
def redeclaringTokens (call : List TokenKind) : List Token :=
  let kinds : List TokenKind := [
    .ident "f", .mark .openParen, .mark .closeParen, .mark .colon, .type .int,
    .keyword .returnWord, .integer 1, .keyword .endWord,
    .ident "f", .mark .openParen, .ident "a", .mark .colon, .type .int, .mark .closeParen,
    .mark .colon, .type .int, .keyword .returnWord]
  (kinds ++ call ++ [TokenKind.keyword .endWord]).map fun kind => ⟨kind, default⟩

/-- In the body of a function that is declared again, a call is not checked against it: `f()` is
accepted, and `f(a)` is not. -/
theorem recursion_to_first_declaration :
    (∃ s t : ParseState, ∃ latest,
      Follows (start (redeclaringTokens [.ident "f", .mark .openParen, .mark .closeParen])) s ∧
      s.function? = some "f" ∧ s.program.latestFunction? "f" = some latest ∧
      t.program.functions = s.program.functions ∧ t.program.foreign? "f" = none ∧
      ¬ ChecksAgainst t "f" latest) ∧
    (parse (redeclaringTokens
        [.ident "f", .mark .openParen, .mark .closeParen])).map (fun _ => ()) = .ok () ∧
    (parse (redeclaringTokens
        [.ident "f", .mark .openParen, .ident "a", .mark .closeParen])).map (fun _ => ()) =
      .error ⟨default, .argumentCount "f" 0 1⟩ := by
  refine ⟨?_, by decide +kernel, by decide +kernel⟩
  have seen : ((statements 4).run
      (start (redeclaringTokens [.ident "f", .mark .openParen, .mark .closeParen]))).map
      (fun (_, s) => (s.function?, [s.program.function? "f", s.program.latestFunction? "f"],
        s.program.foreign? "f", (s.rest.drop 2).head?.map Token.kind)) =
      .ok (some "f", [some ⟨"f", [], .int, 1⟩,
        some ⟨"f", [⟨"a", .int, false, false, none, some "f"⟩], .int, 2⟩], none,
        some (.mark .openParen)) := by
    decide +kernel
  -- Behind `return f` an empty list of arguments is left, which fits the first `f` only.
  have reads : ((statements 4 >>= fun _ => skip 2 >>= fun _ => arguments (expression 3) 3).run
      (start (redeclaringTokens [.ident "f", .mark .openParen, .mark .closeParen]))).map
      Prod.fst = .ok [] := by
    decide +kernel
  obtain ⟨⟨_, v⟩, reads, rfl⟩ := map_eq_ok_iff.1 reads
  obtain ⟨_, s, ran, reads⟩ := run_bind_eq_ok_iff.1 reads
  obtain ⟨_, t, skipped, listed⟩ := run_bind_eq_ok_iff.1 reads
  cases skipped
  rw [ran] at seen
  obtain ⟨inside, functions, notForeign, isOpen⟩ := by
    simpa only [Except.map, Except.ok.injEq, Prod.mk.injEq] using seen
  obtain ⟨first, latest⟩ := by
    simpa only [List.cons.injEq, and_true] using functions
  refine ⟨s, { s with rest := s.rest.drop 2 }, _, Follows.refl.statements ran, inside, latest, rfl,
    notForeign, fun checks => ?_⟩
  have toFirst : ChecksAgainst { s with rest := s.rest.drop 2 } "f" ⟨"f", [], .int, 1⟩ :=
    checksAgainst_function? first notForeign
  cases toFirst.fits checks isOpen listed .nil

end Parse

end StackLang.Source
