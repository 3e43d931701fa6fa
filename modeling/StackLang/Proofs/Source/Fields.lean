import StackLang.Proofs.Source.Records

/-!
# Fields of variables

Whoever reads or assigns the field of a variable looks it up first. For a variable of a structure
type the field is one of that structure, and stays it: `fields_of_parse` follows the lookup from an
accepted program back to the step that made it.

A variable of another type has no fields, but it is not refused for that. Its field is looked up in
the structure of the variable's own name if there is one, and a field of its elements is not looked
up at all, `parse_stray_fields`.
-/

namespace StackLang.Source

open ParseState

variable {s t : ParseState}

/-! ## Lookups -/

/-- The variable has the field `field`, one of the structure that it was declared with, or of a
structure of its own name if it was declared with none. -/
inductive Variable.Has (p : Program) (v : Variable) (field : String) : Prop where
  | declared {name : String} {st : StructType} {f : Variable} (struct : v.struct = some name)
      (known : p.struct? name = some st) (member : st.field? field = some f)
  | namesake {st : StructType} {f : Variable} (plain : v.struct = none)
      (known : p.struct? v.name = some st) (member : st.field? field = some f)

namespace Program

variable {p q : Program} {v f : Variable} {field : String}

theorem has_of_fieldOf? (found : p.fieldOf? v field = some f) : v.Has p field := by
  obtain ⟨st, known, member⟩ := Option.bind_eq_some_iff.1 found
  cases struct : v.struct with
  | none => exact .namesake struct (by rwa [struct] at known) member
  | some name => exact .declared struct (by rwa [struct] at known) member

theorem KnowsStructs.fieldOf? (h : q.KnowsStructs p) (found : p.fieldOf? v field = some f) :
    q.fieldOf? v field = some f := by
  obtain ⟨st, known, member⟩ := Option.bind_eq_some_iff.1 found
  rwa [Program.fieldOf?, h known]

end Program

/-- A lookup that finds what another one finds is as good. -/
theorem ExprKind.HasField.imp {p q : Program} {v : Variable} {k : ExprKind}
    (finds : ∀ {field f}, p.fieldOf? v field = some f → q.fieldOf? v field = some f)
    (has : k.HasField p v) : k.HasField q v := by
  cases k with
  | field =>
    obtain ⟨f, found⟩ := has
    exact ⟨f, finds found⟩
  | elementField =>
    intro struct
    obtain ⟨f, found⟩ := has struct
    exact ⟨f, finds found⟩
  | _ => trivial

/-! ## Structures that are being declared -/

/-- The stub of a structure is no variable. -/
theorem ParseState.resolve?_declare_struct (s : ParseState) (st : StructType)
    (owner : Option String) (name : String) :
    (s.declare (.struct st)).program.resolve? owner name = s.program.resolve? owner name := by
  have own : (s.declare (.struct st)).program.ownVariable? owner name =
      s.program.ownVariable? owner name := by
    simp [Program.ownVariable?, declare, List.findSome?_append]
  rw [Program.resolve?, own]
  rfl

/-- The stub of a structure has no fields, so what is found is a field of another one. -/
theorem ParseState.fieldOf?_of_declare_stub {name field : String} {v f : Variable}
    (found : (s.declare (.struct ⟨name, []⟩)).program.fieldOf? v field = some f) :
    s.program.fieldOf? v field = some f := by
  obtain ⟨st, known, member⟩ := Option.bind_eq_some_iff.1 found
  rw [Program.struct?, declare, Array.toList_push, List.findSome?_append,
    Option.or_eq_some_iff] at known
  obtain known | ⟨-, stub⟩ := known
  · rw [Program.fieldOf?, Program.struct?, known]
    exact member
  · simp only [List.findSome?_cons, List.findSome?_nil] at stub
    split at stub
    · rename_i same
      cases stub
      obtain ⟨-, stub⟩ := Option.ite_none_right_eq_some.1 same
      cases stub
      cases member
    · cases stub

/-! ## Along a parse -/

/-- The function in which the statement from `s` to `t` looks up names: the one that it stands in,
or else the one that it declares. -/
def ParseState.LooksIn (s t : ParseState) (owner : Option String) : Prop :=
  owner = s.function? ∨
    ∃ f, t.program.functions = s.program.functions.push f ∧ owner = some f.name

/-- What a new expression names is known in front of its statement. -/
theorem ParseState.Move.resolves (h : s.Move t) {id : ExprId} (new : s.program.exprs.size ≤ id)
    (made : id < t.program.exprs.size) :
    ∃ owner, s.LooksIn t owner ∧ (t.program.expr id).kind.Resolves s.program owner := by
  cases h with
  | plain read | library read | globalVariable read | localVariable read | opening read
  | otherwise read | closing read => exact ⟨_, .inl rfl, read.reads.known id made new⟩
  | branch read | loop read => exact ⟨s.function?, .inl rfl, read.reads.known id made new⟩
  | @function r f loc read =>
    have pushed := congrArg (Array.push · f) read.reads.functions
    exact ⟨some f.name, .inr ⟨f, pushed, rfl⟩, read.reads.known id made new⟩
  | @struct r u st loc head read =>
    refine ⟨s.function?, .inl rfl, ?_⟩
    show (u.program.expr id).kind.Resolves s.program s.function?
    by_cases old : id < r.program.exprs.size
    · have kept : (u.program.expr id).kind = (r.program.expr id).kind := read.reads.kind id old
      exact kept ▸ head.reads.known id old new
    · intro name names
      obtain ⟨v, found, field⟩ := read.reads.known id made (Nat.not_lt.1 old) name names
      have found : r.program.resolve? r.function? name = some v := by
        rwa [resolve?_declare_struct] at found
      rw [head.reads.function?, head.reads.resolve?] at found
      have field := ExprKind.HasField.imp fieldOf?_of_declare_stub field
      exact ⟨v, found, (head.reads.hasField_iff v _).1 field⟩

/-- In a parse from `first` to `last`, the step from `s` to `t` makes the expression `id`. -/
structure Parse.MakesExpr (first last : ParseState) (id : ExprId) (s t : ParseState) : Prop where
  before : Follows first s
  step : ∃ head limit, s.rest.head? = some head ∧ (statement head limit).run s = .ok ((), t)
  new : s.program.exprs.size ≤ id
  made : id < t.program.exprs.size
  after : Follows t last

/-- Each expression of a parse is made by one of its steps, and what it names was known in front of
that step. A field that was found then is there in the end. -/
theorem Parse.Follows.exists_makesExpr {first last : ParseState} (h : Follows first last)
    (empty : first.program.exprs.size = 0) {id : ExprId} (lt : id < last.program.exprs.size) :
    ∃ s t owner, MakesExpr first last id s t ∧ s.LooksIn t owner ∧
      ∀ name, (last.program.expr id).kind.named? = some name →
        ∃ v, s.program.resolve? owner name = some v ∧
          (last.program.expr id).kind.HasField last.program v := by
  have start : ¬ id < first.program.exprs.size := by
    rw [empty]
    exact Nat.not_lt_zero id
  obtain ⟨s, t, before, ⟨head, limit, read, run⟩, new, made, after⟩ :=
    h.exists_step (P := fun s => id < s.program.exprs.size) start lt
  have move := move_of_statement run
  obtain ⟨owner, looks, resolves⟩ := move.resolves (Nat.not_lt.1 new) made
  refine ⟨s, t, owner, ⟨before, ⟨head, limit, read, run⟩, Nat.not_lt.1 new, made, after⟩, looks,
    fun name names => ?_⟩
  rw [after.kind_eq made] at names ⊢
  obtain ⟨v, found, field⟩ := resolves name names
  have knows : last.program.KnowsStructs s.program := fun known =>
    after.knowsStructs (move.knowsStructs known)
  exact ⟨v, found, field.imp knows.fieldOf?⟩

/-- **Fields of structures are real.** A field that an expression or an assignment of an accepted
program names was looked up where the variable was: one of the structure that the variable was
declared with, or of a structure of its own name. For the element of an array this holds if the
array was declared with a structure. -/
theorem fields_of_parse {tokens : List Token} {p : Program} (h : parse tokens = .ok p) :
    (∀ id < p.exprs.size, ∃ last s t owner, last.program = p ∧
      Parse.MakesExpr (Parse.start tokens) last id s t ∧ s.LooksIn t owner ∧
      (∀ name field, (p.expr id).kind = .field name field →
        ∃ v, s.program.resolve? owner name = some v ∧ v.Has p field) ∧
      (∀ name index field, (p.expr id).kind = .elementField name index field →
        ∃ v, s.program.resolve? owner name = some v ∧ (v.isStruct → v.Has p field))) ∧
    (∀ name field value loc, ⟨.assignField name field value, loc⟩ ∈ p.nodes →
      ∃ last s t v, last.program = p ∧
        Parse.Adds (Parse.start tokens) last ⟨.assignField name field value, loc⟩ s t ∧
        s.program.resolve? s.function? name = some v ∧ v.Has p field) := by
  obtain ⟨last, follows, rfl⟩ := Parse.follows_of_parse h
  constructor
  · intro id lt
    obtain ⟨s, t, owner, makes, looks, names⟩ := follows.exists_makesExpr rfl lt
    refine ⟨last, s, t, owner, rfl, makes, looks, fun name field kind => ?_,
      fun name index field kind => ?_⟩
    · rw [kind] at names
      obtain ⟨v, resolved, f, found⟩ := names name rfl
      exact ⟨v, resolved, Program.has_of_fieldOf? found⟩
    · rw [kind] at names
      obtain ⟨v, resolved, element⟩ := names name rfl
      refine ⟨v, resolved, fun struct => ?_⟩
      obtain ⟨f, found⟩ := element struct
      exact Program.has_of_fieldOf? found
  · intro name field value loc mem
    obtain ⟨s, t, adds, writes⟩ := follows.exists_adds rfl mem
    obtain ⟨v, st, f, resolved, known, member, -⟩ := writes.assigns
    obtain ⟨head, limit, -, run⟩ := adds.step
    have known := adds.after.knowsStructs ((Parse.move_of_statement run).knowsStructs known)
    have found : last.program.fieldOf? v field = some f := by
      rwa [Program.fieldOf?, known]
    exact ⟨last, s, t, v, rfl, adds, resolved, Program.has_of_fieldOf? found⟩

/-- `struct P { x: int, }`, `o: P = { 1 }`, `b: P[1] = [o]`, `o.x = b[0].x + o.x`. -/
def fieldTokens : List Token :=
  let kinds : List TokenKind := [
    .keyword .structWord, .ident "P", .mark .openCurly, .ident "x", .mark .colon, .type .int,
    .mark .comma, .mark .closeCurly,
    .ident "o", .mark .colon, .ident "P", .mark .assign, .mark .openCurly, .integer 1,
    .mark .closeCurly,
    .ident "b", .mark .colon, .ident "P", .mark .openBracket, .integer 1, .mark .closeBracket,
    .mark .assign, .mark .openBracket, .ident "o", .mark .closeBracket,
    .ident "o", .mark .dot, .ident "x", .mark .assign, .ident "b", .mark .openBracket, .integer 0,
    .mark .closeBracket, .mark .dot, .ident "x", .mark .plus, .ident "o", .mark .dot, .ident "x"]
  kinds.map fun kind => ⟨kind, default⟩

theorem fields_of_parse_sum :
    ∃ p, parse fieldTokens = .ok p ∧ p.exprs.size = 8 ∧
      (p.expr 5).kind = .elementField "b" 4 "x" ∧ (p.expr 6).kind = .field "o" "x" ∧
      ⟨.assignField "o" "x" 7, default⟩ ∈ p.nodes ∧
      (∃ last s t owner v, last.program = p ∧
        Parse.MakesExpr (Parse.start fieldTokens) last 5 s t ∧ s.LooksIn t owner ∧
        s.program.resolve? owner "b" = some v ∧ (v.isStruct → v.Has p "x")) ∧
      (∃ last s t owner v, last.program = p ∧
        Parse.MakesExpr (Parse.start fieldTokens) last 6 s t ∧ s.LooksIn t owner ∧
        s.program.resolve? owner "o" = some v ∧ v.Has p "x") ∧
      ∃ last s t v, last.program = p ∧
        Parse.Adds (Parse.start fieldTokens) last ⟨.assignField "o" "x" 7, default⟩ s t ∧
        s.program.resolve? s.function? "o" = some v ∧ v.Has p "x" := by
  have accepted : (parse fieldTokens).map (fun p => (p.exprs.size, (p.expr 5).kind,
      (p.expr 6).kind, p.statements[0]?)) = .ok (8, .elementField "b" 4 "x", .field "o" "x",
        some ⟨.assignField "o" "x" 7, default⟩) := by
    decide +kernel
  obtain ⟨p, parsed, seen⟩ := map_eq_ok_iff.1 accepted
  simp only [Prod.mk.injEq] at seen
  obtain ⟨size, element, field, listed⟩ := seen
  have mem : ⟨.assignField "o" "x" 7, default⟩ ∈ p.nodes := by
    have mem : _ ∈ p.statements.toList := Array.mem_toList_iff.2 (Array.mem_of_getElem? listed)
    exact List.mem_append_left _ (List.mem_append_left _ mem)
  obtain ⟨exprs, assignments⟩ := fields_of_parse parsed
  refine ⟨p, parsed, size, element, field, mem, ?_, ?_, assignments _ _ _ _ mem⟩
  · obtain ⟨last, s, t, owner, same, makes, looks, -, elements⟩ := exprs 5 (by rw [size]; decide)
    obtain ⟨v, resolved, has⟩ := elements _ _ _ element
    exact ⟨last, s, t, owner, v, same, makes, looks, resolved, has⟩
  · obtain ⟨last, s, t, owner, same, makes, looks, fields, -⟩ := exprs 6 (by rw [size]; decide)
    obtain ⟨v, resolved, has⟩ := fields _ _ field
    exact ⟨last, s, t, owner, v, same, makes, looks, resolved, has⟩

/-- `a: int[1] = [1]`, `x: int = a[0].f`, `struct P { x: int, }`, `P: int = 1`, `y: int = P.x`,
`P.x = 2`. -/
def strayTokens : List Token :=
  let kinds : List TokenKind := [
    .ident "a", .mark .colon, .type .int, .mark .openBracket, .integer 1, .mark .closeBracket,
    .mark .assign, .mark .openBracket, .integer 1, .mark .closeBracket,
    .ident "x", .mark .colon, .type .int, .mark .assign, .ident "a", .mark .openBracket, .integer 0,
    .mark .closeBracket, .mark .dot, .ident "f",
    .keyword .structWord, .ident "P", .mark .openCurly, .ident "x", .mark .colon, .type .int,
    .mark .comma, .mark .closeCurly,
    .ident "P", .mark .colon, .type .int, .mark .assign, .integer 1,
    .ident "y", .mark .colon, .type .int, .mark .assign, .ident "P", .mark .dot, .ident "x",
    .ident "P", .mark .dot, .ident "x", .mark .assign, .integer 2]
  kinds.map fun kind => ⟨kind, default⟩

/-- Fields of variables that are integers: of the elements of an array, where any field will do, and
of a variable that has the name of a structure. -/
theorem parse_stray_fields :
    ∃ p v w, parse strayTokens = .ok p ∧
      (p.expr 3).kind = .elementField "a" 2 "f" ∧ p.resolve? none "a" = some v ∧ v.struct = none ∧
      (p.expr 5).kind = .field "P" "x" ∧ p.items = [.assignField "P" "x" 6] ∧
      p.resolve? none "P" = some w ∧ w.struct = none := by
  have accepted : (parse strayTokens).map (fun p => ((p.expr 3).kind, p.resolve? none "a",
      (p.expr 5).kind, p.items, p.resolve? none "P")) = .ok (.elementField "a" 2 "f",
        some { name := "a", type := .int, isArray := true }, .field "P" "x",
        [.assignField "P" "x" 6], some { name := "P", type := .int }) := by
    decide +kernel
  obtain ⟨p, parsed, seen⟩ := map_eq_ok_iff.1 accepted
  simp only [Prod.mk.injEq] at seen
  obtain ⟨element, array, field, items, plain⟩ := seen
  exact ⟨p, _, _, parsed, element, array, rfl, field, items, plain, rfl⟩

end StackLang.Source
