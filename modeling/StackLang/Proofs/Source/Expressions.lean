import StackLang.Proofs.Source.Building

/-!
# Expressions build the forest

The parse of an expression takes up nothing and hands on the expression, `builds_expression`. The
checks of operands and arguments are made on types that stay as they are: an operand keeps its
type when it takes operators of its own, `climb_continues`.
-/

namespace StackLang.Source.Parse

open ParseState

variable {α β : Type} {inner : Parse ExprId} {taken : List ExprId} {given : α → List ExprId}

/-! ## New expressions -/

theorem run_newExpr {kind : ExprKind} {type : DataType} {loc : Location} {s t : ParseState}
    {id : ExprId} (h : (newExpr kind type loc).run s = .ok (id, t)) :
    id = s.program.exprs.size ∧ t = { s with program := s.program.push ⟨kind, type, loc⟩ } := by
  cases h
  exact ⟨rfl, rfl⟩

/-- An expression that declares nothing is made of pending ones. -/
theorem build_of_newExpr {kind : ExprKind} {type : DataType} {loc : Location} {s t : ParseState}
    {id : ExprId} (h : (newExpr kind type loc).run s = .ok (id, t)) (plain : kind.declared = [])
    (checked : s.program.Checked kind) (known : kind.Resolves s.program s.function?) :
    s.Builds kind.children t [id] := by
  obtain ⟨rfl, rfl⟩ := run_newExpr h
  have made := ParseState.Builds.make ⟨kind, type, loc⟩ checked known
  rwa [plain, Program.withForeign_nil] at made

/-- An expression that neither declares nor names anything takes up the ones it is made of. -/
theorem builds_newExpr (kind : ExprKind) (plain : kind.declared = [])
    (checked : ∀ p : Program, p.Checked kind) (unnamed : kind.named? = none) (type : DataType)
    (loc : Location) : Builds kind.children (newExpr kind type loc) fun id => [id] :=
  fun _ _ _ run => build_of_newExpr run plain (checked _) (ExprKind.resolves_of_none unnamed _ _)

/-! ## Behind the name of a variable -/

/-- The step builds expressions where the name means the variable `v`. -/
def BuildsKnowing (name : String) (v : Variable) (taken : List ExprId) (x : Parse α)
    (given : α → List ExprId) : Prop :=
  ∀ ⦃s a t⦄, s.program.resolve? s.function? name = some v → x.run s = .ok (a, t) →
    s.Builds taken t (given a)

/-- What is known stays known while other parts are read. -/
theorem Builds.bind_knowing {name : String} {v : Variable} {x : Parse α} {f : α → Parse β}
    {given' : β → List ExprId} (hx : Builds taken x given)
    (hf : ∀ a, BuildsKnowing name v (given a) (f a) given') :
    BuildsKnowing name v taken (x >>= f) given' := by
  intro s b u known run
  obtain ⟨a, t, first, rest⟩ := run_bind_eq_ok_iff.1 run
  have built := hx first
  have known : t.program.resolve? t.function? name = some v := by
    rwa [built.reads.function?, built.reads.resolve?]
  exact built.trans (hf a known rest)

theorem Keeps.bind_knowing {name : String} {v : Variable} {x : Parse α} {f : α → Parse β}
    {given' : β → List ExprId} (hx : Keeps x)
    (hf : ∀ a, BuildsKnowing name v taken (f a) given') :
    BuildsKnowing name v taken (x >>= f) given' :=
  (hx.builds taken).bind_knowing hf

theorem builds_variableNamed_bind {name : String} {loc : Location} {f : Variable → Parse α}
    (h : ∀ v, BuildsKnowing name v taken (f v) given) :
    Builds taken (variableNamed name loc >>= f) given := by
  intro s a u run
  obtain ⟨v, t, named, rest⟩ := run_bind_eq_ok_iff.1 run
  obtain ⟨rfl, found⟩ := run_variableNamed named
  exact h v found rest

/-- The variable that an expression names is known, and so is the field of it. -/
theorem resolves_of_known {kind : ExprKind} {name : String} {v : Variable} {s : ParseState}
    (names : kind.named? = some name) (known : s.program.resolve? s.function? name = some v)
    (field : kind.HasField s.program v) : kind.Resolves s.program s.function? := by
  intro other same
  rw [names] at same
  cases same
  exact ⟨v, known, field⟩

/-- An expression is made that names the variable, and a field of it only if it has the field. -/
theorem buildsKnowing_newExpr {name : String} {v : Variable} (kind : ExprKind)
    (plain : kind.declared = []) (checked : ∀ p : Program, p.Checked kind)
    (names : kind.named? = some name) (field : ∀ p : Program, kind.HasField p v) (type : DataType)
    (loc : Location) : BuildsKnowing name v kind.children (newExpr kind type loc) fun id => [id] :=
  fun _ _ _ known run =>
    build_of_newExpr run plain (checked _) (resolves_of_known names known (field _))

/-- An expression is made that names the variable and the field that was looked up before. -/
theorem buildsKnowing_fieldNamed_bind {name field : String} {v : Variable} {loc place : Location}
    {type : Variable → DataType} (kind : ExprKind) (plain : kind.declared = [])
    (checked : ∀ p : Program, p.Checked kind) (names : kind.named? = some name)
    (has : ∀ {p : Program} {f}, p.fieldOf? v field = some f → kind.HasField p v) :
    BuildsKnowing name v kind.children
      (fieldNamed v field loc >>= fun f => newExpr kind (type f) place) fun id => [id] := by
  intro s id t known run
  obtain ⟨f, u, member, rest⟩ := run_bind_eq_ok_iff.1 run
  obtain ⟨rfl, st, struct, found⟩ := run_fieldNamed member
  have found : u.program.fieldOf? v field = some f := by
    rwa [Program.fieldOf?, struct]
  exact build_of_newExpr rest plain (checked _) (resolves_of_known names known (has found))

/-! ## Declarations of foreign libraries -/

theorem keeps_foreignParam : Keeps foreignParam := by
  refine keeps_bind keeps_next fun t => ?_
  split
  · exact keeps_pure _
  · refine keeps_bind keeps_program fun p => ?_
    split
    · refine keeps_bind (keeps_nextIs _) fun isReference => ?_
      split
      · exact keeps_bind (keeps_skip 1) fun _ => keeps_pure _
      · exact keeps_pure _
    · exact keeps_fail _ _
  · exact keeps_fail _ _

theorem keeps_foreignFunction (limit : Nat) : Keeps (foreignFunction limit) := by
  refine keeps_bind keeps_ident fun name => ?_
  refine keeps_bind (keeps_parenthesized keeps_foreignParam _ limit) fun params => ?_
  refine keeps_bind (keeps_expect _) fun _ => keeps_bind keeps_next fun t => ?_
  split
  · exact keeps_pure _
  · exact keeps_fail _ _

/-- The functions of a library become symbols one after the other. -/
theorem run_foreignFunctions {limit : Nat} {s t : ParseState} {fs : List ForeignFunction}
    (h : (foreignFunctions limit).run s = .ok (fs, t)) :
    ∃ rest, rest <:+ s.rest ∧ t = { s with rest, program := s.program.withForeign fs } := by
  induction limit generalizing s fs with
  | zero => cases h
  | succ limit ih =>
    obtain ⟨f, s1, named, outer⟩ := run_bind_eq_ok_iff.1 h
    obtain ⟨_, s2, comma, outer⟩ := run_bind_eq_ok_iff.1 outer
    obtain ⟨_, s3, declared, outer⟩ := run_bind_eq_ok_iff.1 outer
    obtain ⟨last, s4, peeked, outer⟩ := run_bind_eq_ok_iff.1 outer
    obtain ⟨rest1, sub1, rfl⟩ := keeps_foreignFunction limit named
    obtain ⟨rest2, sub2, rfl⟩ := keeps_expect _ comma
    cases declared
    obtain ⟨rest3, sub3, rfl⟩ := keeps_nextIs _ peeked
    clear h
    have sub : rest3 <:+ s.rest := sub3.trans (sub2.trans sub1)
    split at outer
    · obtain ⟨_, s5, skipped, done⟩ := run_bind_eq_ok_iff.1 outer
      obtain ⟨rest4, sub4, rfl⟩ := keeps_skip 1 skipped
      cases done
      refine ⟨rest4, sub4.trans sub, ?_⟩
      rw [Program.withForeign_singleton]
    · obtain ⟨more, s5, listed, done⟩ := run_bind_eq_ok_iff.1 outer
      cases done
      obtain ⟨rest4, sub4, rfl⟩ := ih listed
      refine ⟨rest4, sub4.trans sub, ?_⟩
      rw [← List.singleton_append, ← Program.withForeign_append, Program.withForeign_singleton]

/-- The expression of a library goes behind its symbols. -/
theorem builds_library (limit : Nat) (type : DataType) (loc : Location) : Builds [] (do
    let l ← library limit
    newExpr (.library l) type loc) fun id => [id] := by
  intro s id t run
  obtain ⟨l, s1, read, made⟩ := run_bind_eq_ok_iff.1 run
  obtain ⟨file, s2, named, outer⟩ := run_bind_eq_ok_iff.1 read
  obtain ⟨_, s3, comma, outer⟩ := run_bind_eq_ok_iff.1 outer
  obtain ⟨fs, s4, listed, last⟩ := run_bind_eq_ok_iff.1 outer
  cases last
  obtain ⟨rest1, sub1, rfl⟩ := keeps_string named
  obtain ⟨rest2, sub2, rfl⟩ := keeps_expect _ comma
  obtain ⟨rest3, sub3, rfl⟩ := run_foreignFunctions listed
  obtain ⟨rfl, rfl⟩ := run_newExpr made
  have taken : s.Builds [] { s with rest := rest3 } [] := .take (sub3.trans (sub2.trans sub1)) []
  refine taken.trans (.make ⟨.library { file, functions := fs }, type, loc⟩ trivial ?_)
  exact ExprKind.resolves_of_none rfl _ _

/-! ## Arguments -/

/-- Checked arguments fit, and nothing else happens. -/
theorem checkArgs_spec {name : String} {loc : Location} {typeOf : α → DataType}
    {cause : α → Expr → Cause} {params : List α} {args : List ExprId} {s s' : ParseState} {u : Unit}
    (h : (checkArgs name loc typeOf cause params args).run s = .ok (u, s')) :
    s' = s ∧ s.program.Fits typeOf params args := by
  unfold checkArgs at h
  split at h
  · cases h
  rename_i count
  have length : params.length = args.length := Decidable.not_not.1 count
  clear count
  induction params generalizing args with
  | nil =>
    obtain rfl := List.length_eq_zero_iff.1 length.symm
    cases h
    exact ⟨rfl, .nil⟩
  | cons param params ih =>
    obtain ⟨arg, args, rfl⟩ := List.exists_cons_of_length_eq_add_one length.symm
    rw [List.zip_cons_cons] at h
    obtain ⟨_, t, first, rest⟩ := run_bind_eq_ok_iff.1 h
    clear h
    obtain ⟨e, t', got, checked⟩ := run_bind_eq_ok_iff.1 first
    obtain ⟨rfl, rfl⟩ := run_expr got
    clear first
    split at checked
    · rename_i meets
      cases checked
      obtain ⟨same, fits⟩ := ih rest (by simpa using length)
      exact ⟨same, .cons meets fits⟩
    · cases checked

theorem builds_arguments (h : Builds [] inner fun id => [id]) (limit : Nat) :
    Builds [] (arguments inner limit) fun args => args :=
  (builds_parenthesized h _ limit).weaken fun args => by
    rw [List.flatMap_singleton']

theorem builds_afterCommas (h : Builds [] inner fun id => [id]) (limit : Nat) :
    Builds [] (afterCommas inner limit) fun args => args := by
  induction limit with
  | zero => exact builds_pure List.nil_subperm
  | succ limit ih =>
    refine (keeps_nextIs _).bind_builds fun comma => ?_
    split
    · refine (keeps_skip 1).bind_builds fun _ => builds_bind h fun x => ?_
      refine builds_bind (ih.frame [x]) fun xs => builds_pure ?_
      exact (List.perm_append_singleton x xs).symm.subperm
    · exact builds_pure List.nil_subperm

/-- Arguments that have been checked are taken up by the call. -/
theorem build_of_call {typeOf : α → DataType} {params : List α} {name : String}
    {loc : Location} {cause : α → Expr → Cause} {call : List ExprId → ExprKind} {type : DataType}
    {limit : Nat} {s t : ParseState} {id : ExprId} (h : Builds [] inner fun id => [id])
    (children : ∀ args, (call args).children = args) (plain : ∀ args, (call args).declared = [])
    (unnamed : ∀ args, (call args).named? = none)
    (checked : ∀ args p, s.program.Grows p → p.Fits typeOf params args → p.Checked (call args))
    (run : (do
      let args ← arguments inner limit
      checkArgs name loc typeOf cause params args
      newExpr (call args) type loc : Parse ExprId).run s = .ok (id, t)) :
    s.Builds [] t [id] := by
  obtain ⟨args, s1, parsed, more⟩ := run_bind_eq_ok_iff.1 run
  obtain ⟨_, s2, passed, last⟩ := run_bind_eq_ok_iff.1 more
  have built := builds_arguments h limit parsed
  obtain ⟨rfl, fits⟩ := checkArgs_spec passed
  have known := ExprKind.resolves_of_none (unnamed args) s2.program s2.function?
  have made := build_of_newExpr last (plain args) (checked args _ built.grows fits) known
  rw [children] at made
  exact built.trans made

/-! ## Operands -/

theorem builds_indexed (h : Builds [] inner fun id => [id]) (name : String) (loc : Location) :
    Builds [] (indexed inner name loc) fun id => [id] := by
  refine builds_variableNamed_bind fun v => (keeps_expect _).bind_knowing fun _ => ?_
  refine h.bind_knowing fun index => (keeps_expect _).bind_knowing fun _ => ?_
  refine (keeps_nextIs _).bind_knowing fun dot => ?_
  split
  · refine (keeps_skip 1).bind_knowing fun _ => keeps_ident.bind_knowing fun field => ?_
    dsimp only
    split
    · exact buildsKnowing_fieldNamed_bind (.elementField name index field.1) rfl
        (fun _ => trivial) rfl fun found _ => ⟨_, found⟩
    · rename_i plain
      refine (keeps_pure _).bind_knowing fun type => ?_
      exact buildsKnowing_newExpr (.elementField name index field.1) rfl (fun _ => trivial) rfl
        (fun _ struct => absurd struct plain) _ _
  · exact buildsKnowing_newExpr (.element name index) rfl (fun _ => trivial) rfl
      (fun _ => trivial) _ _

/-- A name is a call that has been checked, or an expression without checks. -/
theorem builds_named (h : Builds [] inner fun id => [id]) (limit : Nat) (name : String)
    (loc : Location) : Builds [] (named inner limit name loc) fun id => [id] := by
  intro s id s' run
  obtain ⟨p, s1, got, outer⟩ := run_bind_eq_ok_iff.1 run
  obtain ⟨rfl, rfl⟩ := run_program got
  clear run got
  split at outer
  · rename_i f found
    refine build_of_call h (fun _ => rfl) (fun _ => rfl) (fun _ => rfl) ?_ outer
    exact fun args p grows fits => ⟨f, grows.knows.foreign found, fits⟩
  obtain ⟨kind, s2, peeked, inside⟩ := run_bind_eq_ok_iff.1 outer
  obtain rfl : s2 = s1 := by
    cases peeked
    rfl
  clear outer
  split at inside
  · obtain ⟨f, s3, known, rest⟩ := run_bind_eq_ok_iff.1 inside
    obtain ⟨rfl, found⟩ := run_functionNamed known
    refine build_of_call h (fun _ => rfl) (fun _ => rfl) (fun _ => rfl) ?_ rest
    exact fun args p grows fits => ⟨f, grows.knows.function found, fits⟩
  split at inside
  · exact builds_indexed h name loc inside
  · refine (?_ : Builds [] _ fun id => [id]) inside
    refine builds_variableNamed_bind fun v => ?_
    split
    · refine (keeps_skip 1).bind_knowing fun _ => keeps_ident.bind_knowing fun field => ?_
      exact buildsKnowing_fieldNamed_bind (.field name field.1) rfl (fun _ => trivial) rfl
        fun found => ⟨_, found⟩
    · exact buildsKnowing_newExpr (.variable name) rfl (fun _ => trivial) rfl (fun _ => trivial) _ _

theorem builds_operand (h : Builds [] inner fun id => [id]) (limit : Nat) :
    Builds [] (operand inner limit) fun id => [id] := by
  refine keeps_next.bind_builds fun t => ?_
  cases t.kind with
  | integer n => exact builds_newExpr (.integer n) rfl (fun _ => trivial) rfl _ _
  | float pattern => exact builds_newExpr (.float pattern) rfl (fun _ => trivial) rfl _ _
  | string text => exact builds_newExpr (.text text) rfl (fun _ => trivial) rfl _ _
  | char b => exact builds_newExpr (.char b) rfl (fun _ => trivial) rfl _ _
  | builtin b =>
    by_cases dll : b = .dll
    · subst dll
      exact builds_library limit _ _
    · have called : Builds [] (do
          let first ← inner
          let more ← afterCommas inner limit
          newExpr (.builtin b (first :: more)) b.returnType t.loc) fun id => [id] := by
        refine builds_bind h fun first => ?_
        refine builds_bind ((builds_afterCommas h limit).frame [first]) fun more => ?_
        refine Builds.offer ?_ (List.perm_append_singleton first more).symm.subperm
        exact builds_newExpr (.builtin b (first :: more)) rfl (fun _ => trivial) rfl _ _
      cases b <;> first | exact called | exact absurd rfl dll
  | mark m =>
    cases m
    case openCurly =>
      refine builds_bind (builds_listUpTo h _ _ limit) fun values => ?_
      rw [List.flatMap_singleton']
      exact builds_newExpr (.record values) rfl (fun _ => trivial) rfl _ _
    case openParen =>
      refine builds_bind h fun e => (keeps_expect _).bind_builds fun _ => ?_
      exact builds_pure (List.Subperm.refl [e])
    all_goals exact builds_fail _ _
  | ident name => exact builds_named h limit _ t.loc
  | keyword | type => exact builds_fail _ _

/-! ## Operators -/

theorem keeps_nextOperator : Keeps nextOperator := by
  refine keeps_bind keeps_peek fun kind => ?_
  split
  · exact keeps_pure _
  · exact keeps_pure _

/-- Checked operands meet, and nothing else happens. -/
theorem checkOperands_spec {left right : ExprId} {s s' : ParseState} {u : Unit}
    (h : (checkOperands left right).run s = .ok (u, s')) :
    s' = s ∧ (s.program.expr left).type.meets (s.program.expr right).type := by
  obtain ⟨l, s1, gotLeft, rest⟩ := run_bind_eq_ok_iff.1 h
  obtain ⟨r, s2, gotRight, last⟩ := run_bind_eq_ok_iff.1 rest
  obtain ⟨rfl, rfl⟩ := run_expr gotLeft
  obtain ⟨rfl, rfl⟩ := run_expr gotRight
  clear h rest
  split at last
  · rename_i meets
    cases last
    exact ⟨rfl, meets⟩
  · cases last

/-- The expression of an operator takes up its operands, which meet, and has the type of the first
one. -/
theorem build_of_newBinary {op : Operator} {left right whole : ExprId} {s t : ParseState}
    (h : (newBinary op left right).run s = .ok (whole, t))
    (meets : (s.program.expr left).type.meets (s.program.expr right).type) :
    s.Builds [left, right] t [whole] ∧
      (t.program.expr whole).type = (s.program.expr left).type := by
  obtain ⟨l, s1, got, rest⟩ := run_bind_eq_ok_iff.1 h
  obtain ⟨rfl, rfl⟩ := run_expr got
  refine ⟨build_of_newExpr rest rfl meets (ExprKind.resolves_of_none rfl _ _), ?_⟩
  obtain ⟨rfl, rfl⟩ := run_newExpr rest
  rw [Program.expr_push_size]

/-- A step that goes on with an expression and hands one on of the same type. -/
def Continues (left : ExprId) (x : Parse ExprId) : Prop :=
  ∀ ⦃s whole t⦄, x.run s = .ok (whole, t) → left < s.program.exprs.size →
    s.Builds [left] t [whole] ∧ (t.program.expr whole).type = (s.program.expr left).type

theorem continues_pure (left : ExprId) : Continues left (pure left) := by
  intro s whole t run _
  cases run
  exact ⟨.refl _ _, rfl⟩

/-- Operators take up operands of types that meet, and the first operand gives the type. -/
theorem climb_continues {operand : Parse ExprId} (h : Builds [] operand fun id => [id])
    (limit : Nat) (left : ExprId) (least : Nat) :
    Continues left (climb operand limit left least) := by
  induction limit generalizing left least with
  | zero => exact continues_pure left
  | succ limit ih =>
    intro s whole s' run leftIn
    obtain ⟨op, s1, peeked, outer⟩ := run_bind_eq_ok_iff.1 run
    obtain ⟨rest, sub, rfl⟩ := keeps_nextOperator peeked
    clear run peeked
    have passed : s.Builds [left] { s with rest } [left] := .take sub [left]
    have done {t : ParseState} (run : (pure left : Parse ExprId).run { s with rest } =
        .ok (whole, t)) : s.Builds [left] t [whole] ∧
          (t.program.expr whole).type = (s.program.expr left).type :=
      (continues_pure left run leftIn).imp_left passed.trans
    split at outer
    · exact done outer
    split at outer
    · exact done outer
    obtain ⟨_, s2, skipped, outer⟩ := run_bind_eq_ok_iff.1 outer
    obtain ⟨right, s3, first, outer⟩ := run_bind_eq_ok_iff.1 outer
    obtain ⟨_, s4, checked, outer⟩ := run_bind_eq_ok_iff.1 outer
    obtain ⟨right', s5, more, outer⟩ := run_bind_eq_ok_iff.1 outer
    obtain ⟨node, s6, made, last⟩ := run_bind_eq_ok_iff.1 outer
    obtain ⟨rest', sub', rfl⟩ := keeps_skip 1 skipped
    have front : s.Builds [left] { s with rest := rest' } [left] := .take (sub'.trans sub) [left]
    have operand := h first
    obtain ⟨rfl, meets⟩ := checkOperands_spec checked
    have rightIn : right < s4.program.exprs.size :=
      operand.bounded (by simp) right (List.mem_singleton_self right)
    obtain ⟨operators, sameRight⟩ := ih right _ more rightIn
    -- The check came before the right operand took operators of its own, but neither type has
    -- changed since.
    have sameLeft : s5.program.expr left = s4.program.expr left :=
      operators.grows.expr left (Nat.lt_of_lt_of_le leftIn operand.grows.size)
    rw [← sameLeft, ← sameRight] at meets
    obtain ⟨binary, sameNode⟩ := build_of_newBinary made meets
    have both : s.Builds [left] s5 [right', left] :=
      front.trans ((operand.trans operators).frame [left])
    have built := (both.trans (.offer s5 (List.Perm.swap right' left []).subperm)).trans binary
    have nodeIn : node < s6.program.exprs.size :=
      built.bounded (by simpa using leftIn) node (List.mem_singleton_self node)
    obtain ⟨others, sameWhole⟩ := ih node _ last nodeIn
    refine ⟨built.trans others, ?_⟩
    rw [sameWhole, sameNode, sameLeft, operand.grows.expr left leftIn]

/-- **The parse of an expression builds the forest.** It takes up nothing, hands on the
expression, and changes nothing that is there. -/
theorem builds_expression (limit : Nat) : Builds [] (expression limit) fun id => [id] := by
  induction limit with
  | zero => exact builds_outOfTokens
  | succ limit ih =>
    have operand := builds_operand ih limit
    intro s id t run
    obtain ⟨left, u, first, rest⟩ := run_bind_eq_ok_iff.1 run
    have built := operand first
    have there : left < u.program.exprs.size :=
      built.bounded (by simp) left (List.mem_singleton_self left)
    exact built.trans (climb_continues operand limit left 1 rest there).1

end StackLang.Source.Parse
