import StackLang.Proofs.Source.Blocks
import StackLang.Proofs.Source.Nodes
import StackLang.Proofs.Source.Statements

/-!
# What names of variables mean

A name in a statement means a parameter or a variable of the function that the statement is in, or
a global variable if it is in none. The parse looks a name up in flat tables of all that has been
declared, by the tag of the function that owns a variable. That it respects scopes nevertheless is
an invariant of the parse, `Parse.Scoped`: each tag is the function whose body the declaration
stands in.
-/

namespace StackLang.Source

variable {s t : ParseState}

/-! ## Lookups -/

namespace Program

variable {p : Program} {name : String}

theorem ownVariable?_eq_some {owner : Option String} {v : Variable}
    (h : p.ownVariable? owner name = some v) :
    .variable v ∈ p.symbols.toList ∧ v.name = name ∧ v.owner = owner := by
  obtain ⟨symbol, mem, found⟩ := List.exists_of_findSome?_eq_some h
  split at found
  · rename_i w
    simp only [Option.ite_none_right_eq_some, Bool.and_eq_true, beq_iff_eq,
      Option.some.injEq] at found
    obtain ⟨⟨named, owned⟩, rfl⟩ := found
    exact ⟨mem, named, owned⟩
  · cases found

theorem latestFunction?_eq_some {f : Function} (h : p.latestFunction? name = some f) :
    f ∈ p.functions.toList ∧ f.name = name := by
  have named := List.find?_some h
  exact ⟨List.mem_reverse.1 (List.mem_of_find?_eq_some h), beq_iff_eq.1 named⟩

theorem exists_latestFunction? {f : Function} (h : f ∈ p.functions.toList) :
    ∃ g, p.latestFunction? f.name = some g := by
  rw [← Option.isSome_iff_exists, latestFunction?, List.find?_isSome]
  exact ⟨f, List.mem_reverse.2 h, beq_self_eq_true _⟩

end Program

/-- The function that a parse is in has an open block. -/
theorem ParseState.mem_blocks_of_function? {name : String} (h : s.function? = some name) :
    .function name ∈ s.blocks := by
  obtain ⟨block, mem, found⟩ := List.exists_of_findSome?_eq_some h
  split at found
  · cases found
    exact mem
  · cases found

/-! ## What a statement adds -/

namespace ParseState

theorem Advances.nodes (h : s.Advances t) : t.program.nodes = s.program.nodes := by
  rw [Program.nodes, h.statements, h.globals, h.libraries, Program.nodes]

theorem Advances.mem_variable (h : s.Advances t) {v : Variable}
    (mem : .variable v ∈ t.program.symbols.toList) : .variable v ∈ s.program.symbols.toList := by
  obtain ⟨fs, symbols⟩ := h.symbols
  rw [symbols, List.mem_append] at mem
  rcases mem with mem | mem
  · exact mem
  · obtain ⟨f, -, ne⟩ := List.mem_map.1 mem
    cases ne

/-- A new symbol is the only variable that it can add. -/
theorem mem_push {symbols : Array Symbol} {symbol : Symbol} {v : Variable}
    (mem : .variable v ∈ (symbols.push symbol).toList) :
    .variable v ∈ symbols.toList ∨ symbol = .variable v := by
  rw [Array.toList_push, List.mem_append, List.mem_singleton] at mem
  exact mem.imp_right Eq.symm

namespace Move

/-- Expressions stay where they are and keep their forms. -/
theorem size_le (h : s.Move t) : s.program.exprs.size ≤ t.program.exprs.size := by
  cases h with
  | plain read | library read | globalVariable read | localVariable read | branch read
  | loop read | opening read | otherwise read | closing read | function read => exact read.reads.size
  | struct head read => exact Nat.le_trans head.reads.size read.reads.size

theorem kind_eq (h : s.Move t) {id : ExprId} (lt : id < s.program.exprs.size) :
    (t.program.expr id).kind = (s.program.expr id).kind := by
  cases h with
  | plain read | library read | globalVariable read | localVariable read | branch read
  | loop read | opening read | otherwise read | closing read | function read =>
    exact read.reads.kind id lt
  | struct head read =>
    exact (read.reads.kind id (Nat.lt_of_lt_of_le lt head.reads.size)).trans (head.reads.kind id lt)

end Move

/-- A statement makes the node. What the node names is known in front of the statement, and if it
is a declaration, the statement has read it. -/
structure Writes (s t : ParseState) (node : Located Statement) : Prop where
  nodes : t.program.nodes.Perm (node :: s.program.nodes)
  assigns : node.item.Assigns s.program s.function?
  known : node.item.exprs ≠ [] → ∀ id < t.program.exprs.size, s.program.exprs.size ≤ id →
    (t.program.expr id).kind.Resolves s.program s.function?
  declares : ∀ d, node.item = .declare d →
    ∃ u, Parse.Declares s u d ∧ u.program.exprs = t.program.exprs

/-- A statement is emitted behind its parts. -/
theorem Writes.emit {st : Statement} {loc : Location} {r : ParseState}
    (same : r.program.nodes = s.program.nodes) (undeclared : st.declared? = none)
    (assigns : st.Assigns s.program s.function?)
    (known : st.exprs ≠ [] → ∀ id < r.program.exprs.size, s.program.exprs.size ≤ id →
      (r.program.expr id).kind.Resolves s.program s.function?) :
    s.Writes (r.emit loc st) ⟨st, loc⟩ where
  nodes := same ▸ r.program.nodes_push ⟨st, loc⟩
  assigns := assigns
  known := known
  declares := by
    rintro d rfl
    cases undeclared

/-- The declaration of a global variable is written behind its parts. -/
theorem Writes.globalVariable {d : Declaration} {loc : Location} {r : ParseState}
    (read : Parse.Declares s r d) :
    s.Writes (ParseState.declare
      { r with program := { r.program with globals := r.program.globals.push ⟨d, loc⟩ } }
      (.variable d.target)) ⟨.declare d, loc⟩ where
  nodes := read.reads.nodes ▸ r.program.nodes_pushGlobal ⟨d, loc⟩
  assigns := trivial
  known _ := read.reads.known
  declares := by
    intro _ same
    cases same
    exact ⟨r, read, rfl⟩

/-- The declaration of a variable of a function is emitted behind its parts. -/
theorem Writes.localVariable {d : Declaration} {loc : Location} {r : ParseState}
    (read : Parse.Declares s r d) :
    s.Writes ((r.emit loc (.declare d)).declare (.variable d.target)) ⟨.declare d, loc⟩ where
  nodes := read.reads.nodes ▸ r.program.nodes_push ⟨.declare d, loc⟩
  assigns := trivial
  known _ := read.reads.known
  declares := by
    intro _ same
    cases same
    exact ⟨r, read, rfl⟩

/-- A statement makes a node or none. -/
theorem Move.nodes (h : s.Move t) :
    t.program.nodes = s.program.nodes ∨ ∃ node, s.Writes t node := by
  cases h with
  | plain read plain undeclared typed assigns =>
    exact .inr ⟨_, .emit read.reads.nodes undeclared assigns fun _ => read.reads.known⟩
  | @library r value read =>
    refine .inr ⟨⟨.evaluate value.item, value.loc⟩, ?_, trivial, fun _ => read.reads.known, ?_⟩
    · exact read.reads.nodes ▸ r.program.nodes_pushLibrary value
    · exact fun _ other => nomatch other
  | globalVariable read => exact .inr ⟨_, .globalVariable read⟩
  | localVariable read => exact .inr ⟨_, .localVariable read⟩
  | struct head read => exact .inl (read.reads.nodes.trans head.reads.nodes)
  | branch read | loop read =>
    exact .inr ⟨_, .emit read.reads.nodes rfl trivial fun _ => read.reads.known⟩
  | opening read | otherwise read | closing read | function read =>
    exact .inr ⟨_, .emit read.reads.nodes rfl trivial fun made => absurd rfl made⟩

/-- A variable that is declared is owned by the function that the declaration stands in. -/
theorem Move.declared (h : s.Move t) {v : Variable}
    (mem : .variable v ∈ t.program.symbols.toList) :
    .variable v ∈ s.program.symbols.toList ∨
    ∃ d loc, s.Writes t ⟨.declare d, loc⟩ ∧ d.target = v ∧ v.owner = s.function? := by
  cases h with
  | plain read | library read | branch read | loop read | opening read | otherwise read
  | closing read => exact .inl (read.reads.mem_variable mem)
  | @globalVariable r d loc read =>
    rcases mem_push mem with mem | same
    · exact .inl (read.reads.mem_variable mem)
    · cases same
      exact .inr ⟨d, loc, .globalVariable read, rfl, read.owner⟩
  | @localVariable r d loc read =>
    rcases mem_push mem with mem | same
    · exact .inl (read.reads.mem_variable mem)
    · cases same
      exact .inr ⟨d, loc, .localVariable read, rfl, read.owner⟩
  | struct head read =>
    left
    rw [Array.toList_setIfInBounds] at mem
    -- The structure takes the place of its stub, which is no variable either.
    rcases List.mem_or_eq_of_mem_set mem with mem | same
    · rcases mem_push (read.reads.mem_variable mem) with mem | stub
      · exact head.reads.mem_variable mem
      · cases stub
    · cases same
  | function read =>
    left
    rcases mem_push mem with mem | same
    · exact read.reads.mem_variable mem
    · cases same

/-- A function that is added has a statement, and owns its parameters. -/
theorem Move.functions (h : s.Move t) :
    t.program.functions = s.program.functions ∨
    ∃ f, t.program.functions = s.program.functions.push f ∧ .function f ∈ t.program.items ∧
      ∀ v ∈ f.params, v.owner = some f.name := by
  cases h with
  | plain read | library read | globalVariable read | localVariable read | branch read
  | loop read | opening read | otherwise read | closing read => exact .inl read.reads.functions
  | struct head read => exact .inl (read.reads.functions.trans head.reads.functions)
  | @function r f loc read label owned =>
    refine .inr ⟨f, congrArg (Array.push · f) read.reads.functions, ?_, owned⟩
    rw [items_emit]
    exact List.mem_append_right _ (List.mem_singleton_self _)

theorem Move.items_subset (h : s.Move t) : s.program.items ⊆ t.program.items := by
  obtain ⟨items, -⟩ | ⟨st, items, -⟩ := h.stacks
  · rw [items]
    exact List.Subset.refl _
  · rw [items]
    exact List.subset_append_left _ _

theorem Move.functions_subset (h : s.Move t) :
    s.program.functions.toList ⊆ t.program.functions.toList := by
  obtain same | ⟨f, added, -⟩ := h.functions
  · rw [same]
    exact List.Subset.refl _
  · rw [added, Array.toList_push]
    exact List.subset_append_left _ _

/-- The block of a function is opened together with the function. -/
theorem Move.mem_blocks (h : s.Move t) {name : String} (mem : .function name ∈ t.blocks) :
    .function name ∈ s.blocks ∨ ∃ f ∈ t.program.functions.toList, f.name = name := by
  cases h with
  | plain read | library read | globalVariable read | localVariable read | opening read =>
    exact .inl (read.reads.blocks ▸ mem)
  | struct head read => exact .inl (head.reads.blocks ▸ read.reads.blocks ▸ mem)
  | @branch r c loc read | @loop r c loc read =>
    left
    have mem : .function name ∈ r.blocks := mem
    rw [read.reads.blocks] at mem
    simpa [enter] using mem
  | otherwise read block => exact .inl (block ▸ List.mem_cons_of_mem _ (by simpa [emit] using mem))
  | closing read block => exact .inl (block ▸ List.mem_cons_of_mem _ mem)
  | @function r f loc read =>
    have mem : .function name ∈ r.blocks := mem
    rw [read.reads.blocks] at mem
    rcases List.mem_cons.1 mem with same | mem
    · cases same
      exact .inr ⟨f, by simp [emit], rfl⟩
    · exact .inl mem

end ParseState

/-! ## Along a parse -/

theorem Statement.Assigns.exists_resolve? {p : Program} {owner : Option String} {st : Statement}
    (h : st.Assigns p owner) {name : String} (target : st.target? = some name) :
    ∃ v, p.resolve? owner name = some v := by
  cases st with
  | assign =>
    cases target
    obtain ⟨v, found, -⟩ := h
    exact ⟨v, found⟩
  | assignElement =>
    cases target
    exact h
  | assignField =>
    cases target
    obtain ⟨v, -, -, found, -⟩ := h
    exact ⟨v, found⟩
  | _ => cases target

namespace Parse

open ParseState

variable {first last : ParseState} {node : Located Statement} {name : String} {v : Variable}

/-- In a parse from `first` to `last`, the step from `s` to `t` adds the node. -/
structure Adds (first last : ParseState) (node : Located Statement) (s t : ParseState) : Prop where
  before : Follows first s
  step : ∃ head limit, s.rest.head? = some head ∧ (statement head limit).run s = .ok ((), t)
  added : t.program.nodes.Perm (node :: s.program.nodes)
  after : Follows t last

theorem Follows.size_le (h : Follows s t) : s.program.exprs.size ≤ t.program.exprs.size :=
  h.keeps (P := fun t => s.program.exprs.size ≤ t.program.exprs.size) (Nat.le_refl _)
    fun move le => Nat.le_trans le move.size_le

theorem Follows.kind_eq (h : Follows s t) {id : ExprId} (lt : id < s.program.exprs.size) :
    (t.program.expr id).kind = (s.program.expr id).kind := by
  induction h with
  | refl => rfl
  | next before _ run ih =>
    have kept := (move_of_statement run).kind_eq (Nat.lt_of_lt_of_le lt before.size_le)
    exact kept.trans ih

theorem Follows.openBlocks?_eq {tokens : List Token} (h : Follows (start tokens) s) :
    openBlocks? s.program.items = some s.blocks :=
  h.keeps (P := fun s => openBlocks? s.program.items = some s.blocks) rfl Move.openBlocks?_eq

/-- Each node of a parse is added by one of its steps. -/
theorem Follows.exists_adds (h : Follows first last) (empty : first.program.nodes = [])
    (mem : node ∈ last.program.nodes) : ∃ s t, Adds first last node s t ∧ s.Writes t node := by
  have start : node ∉ first.program.nodes := empty ▸ List.not_mem_nil
  obtain ⟨s, t, before, ⟨head, limit, read, run⟩, new, mem, after⟩ :=
    h.exists_step (P := fun s => node ∈ s.program.nodes) start mem
  obtain same | ⟨made, writes⟩ := (move_of_statement run).nodes
  · exact absurd (same ▸ mem) new
  rcases List.mem_cons.1 (writes.nodes.mem_iff.1 mem) with rfl | mem
  · exact ⟨s, t, ⟨before, ⟨head, limit, read, run⟩, writes.nodes, after⟩, writes⟩
  · exact absurd mem new

/-- What a node names was known in front of it. -/
theorem Adds.exists_resolve? (h : Adds first last node s t) (writes : s.Writes t node)
    (sound : first.program.Sound []) (uses : node.item.Uses last.program name) :
    ∃ v, s.program.resolve? s.function? name = some v := by
  rcases uses with target | ⟨whole, mem, id, within, names⟩
  · exact writes.assigns.exists_resolve? target
  · obtain ⟨head, limit, -, run⟩ := h.step
    have move := move_of_statement run
    have grown := move.sound (h.before.sound sound).spare
    have adds : s.program.AddsNode t.program node :=
      ⟨grown.built, move.size_le, fun _ => move.kind_eq, writes.nodes⟩
    obtain ⟨new, lt⟩ := adds.new_of_within (fun _ => h.after.kind_eq) mem within
    rw [h.after.kind_eq lt] at names
    obtain ⟨v, found, -⟩ := writes.known (List.ne_nil_of_mem mem) id lt new name names
    exact ⟨v, found⟩

/-! ## Scopes -/

/-- A declaration in front of `s` declares the variable, in the function that owns it. -/
def Declared (first s : ParseState) (v : Variable) : Prop :=
  ∃ d loc a b, Adds first s ⟨.declare d, loc⟩ a b ∧ d.target = v ∧ v.owner = a.function?

/-- What has been declared is owned by the function that it stands in. -/
structure Scoped (first s : ParseState) : Prop where
  declared : ∀ v, .variable v ∈ s.program.symbols.toList → Declared first s v
  functions : ∀ f ∈ s.program.functions.toList,
    .function f ∈ s.program.items ∧ ∀ v ∈ f.params, v.owner = some f.name
  blocks : ∀ name, .function name ∈ s.blocks → ∃ f ∈ s.program.functions.toList, f.name = name

theorem Declared.next {head : Token} {limit : Nat} (h : Declared first s v)
    (read : s.rest.head? = some head) (run : (statement head limit).run s = .ok ((), t)) :
    Declared first t v := by
  obtain ⟨d, loc, a, b, adds, target, owner⟩ := h
  exact ⟨d, loc, a, b, { adds with after := adds.after.next read run }, target, owner⟩

/-- **Every step of a parse respects scopes.** -/
theorem Scoped.next {head : Token} {limit : Nat} (h : Scoped first s) (before : Follows first s)
    (read : s.rest.head? = some head) (run : (statement head limit).run s = .ok ((), t)) :
    Scoped first t := by
  have move := move_of_statement run
  constructor
  · intro v mem
    obtain old | ⟨d, loc, writes, target, owner⟩ := move.declared mem
    · exact (h.declared v old).next read run
    · exact ⟨d, loc, s, t, ⟨before, ⟨head, limit, read, run⟩, writes.nodes, .refl⟩, target, owner⟩
  · intro f mem
    have old (mem : f ∈ s.program.functions.toList) :
        .function f ∈ t.program.items ∧ ∀ v ∈ f.params, v.owner = some f.name := by
      obtain ⟨listed, owned⟩ := h.functions f mem
      exact ⟨move.items_subset listed, owned⟩
    obtain same | ⟨g, added, listed, owned⟩ := move.functions
    · exact old (same ▸ mem)
    · rw [added, Array.toList_push, List.mem_append, List.mem_singleton] at mem
      rcases mem with mem | rfl
      · exact old mem
      · exact ⟨listed, owned⟩
  · intro name mem
    obtain old | new := move.mem_blocks mem
    · obtain ⟨f, mem, named⟩ := h.blocks name old
      exact ⟨f, move.functions_subset mem, named⟩
    · exact new

theorem Follows.scoped {tokens : List Token} (h : Follows (start tokens) s) :
    Scoped (start tokens) s := by
  induction h with
  | refl =>
    constructor
    · exact fun _ mem => absurd mem List.not_mem_nil
    · exact List.forall_mem_nil _
    · exact fun _ mem => absurd mem List.not_mem_nil
  | next before read run ih => exact ih.next before read run

/-- What the name of a variable means in front of `s`: inside of a function a parameter of it, or
else a variable that is declared in it, and outside of functions a global variable. Of several
functions of the name it is the latest one. -/
inductive Means (first s : ParseState) (name : String) (v : Variable) : Prop where
  | param {f : Function} (inside : s.function? = some f.name)
      (latest : s.program.latestFunction? f.name = some f) (listed : .function f ∈ s.program.items)
      (found : f.params.find? (fun w => w.name == name) = some v)
  | own {f : Function} (inside : s.function? = some f.name)
      (latest : s.program.latestFunction? f.name = some f) (listed : .function f ∈ s.program.items)
      (free : ∀ w ∈ f.params, w.name ≠ name) (declared : Declared first s v)
  | global (outside : s.function? = none) (declared : Declared first s v)

theorem Scoped.means (h : Scoped first s)
    (found : s.program.resolve? s.function? name = some v) :
    v.name = name ∧ v.owner = s.function? ∧ Means first s name v := by
  obtain outside | ⟨owner, inside⟩ := Option.eq_none_or_eq_some s.function?
  · obtain ⟨mem, named, owned⟩ := Program.ownVariable?_eq_some (outside ▸ found)
    exact ⟨named, owned.trans outside.symm, .global outside (h.declared v mem)⟩
  obtain ⟨g, mem, rfl⟩ := h.blocks owner (mem_blocks_of_function? inside)
  obtain ⟨f, latest⟩ := Program.exists_latestFunction? mem
  obtain ⟨mem, same⟩ := Program.latestFunction?_eq_some latest
  rw [← same] at inside latest
  obtain ⟨listed, owned⟩ := h.functions f mem
  simp only [inside, Program.resolve?, Option.bind_some, latest, Option.or_eq_some_iff] at found
  rcases found with found | ⟨free, found⟩
  · have named := List.find?_some found
    have owner := owned v (List.mem_of_find?_eq_some found)
    exact ⟨beq_iff_eq.1 named, owner.trans inside.symm, .param inside latest listed found⟩
  · obtain ⟨mem, named, owner⟩ := Program.ownVariable?_eq_some found
    have free : ∀ w ∈ f.params, w.name ≠ name := by
      intro w mem same
      exact List.find?_eq_none.1 free w mem (beq_iff_eq.2 same)
    exact ⟨named, owner.trans inside.symm, .own inside latest listed free (h.declared v mem)⟩

end Parse

/-- **Names respect scopes.** A node of an accepted program uses only names of variables that are
declared in front of it, in the function whose block is the innermost open one, or outside of all
functions if none has an open block. -/
theorem scoped_of_parse {tokens : List Token} {p : Program} (h : parse tokens = .ok p)
    {node : Located Statement} (mem : node ∈ p.nodes) :
    ∃ last s t, last.program = p ∧ Parse.Adds (Parse.start tokens) last node s t ∧
      openBlocks? s.program.items = some s.blocks ∧
      ∀ name, node.item.Uses p name → ∃ v, s.program.resolve? s.function? name = some v ∧
        v.name = name ∧ v.owner = s.function? ∧ Parse.Means (Parse.start tokens) s name v := by
  obtain ⟨last, follows, rfl⟩ := Parse.follows_of_parse h
  obtain ⟨s, t, adds, writes⟩ := follows.exists_adds rfl mem
  refine ⟨last, s, t, rfl, adds, adds.before.openBlocks?_eq, fun name uses => ?_⟩
  obtain ⟨v, found⟩ := adds.exists_resolve? writes Program.sound_empty uses
  exact ⟨v, found, adds.before.scoped.means found⟩

/-- `n: int = 1`, `f(n: int): int n: int = 2`, `m: int = n`, `g(k: int): int return k end`,
`m = n end`. -/
def shadowTokens : List Token :=
  let kinds : List TokenKind := [
    .ident "n", .mark .colon, .type .int, .mark .assign, .integer 1,
    .ident "f", .mark .openParen, .ident "n", .mark .colon, .type .int, .mark .closeParen,
    .mark .colon, .type .int,
    .ident "n", .mark .colon, .type .int, .mark .assign, .integer 2,
    .ident "m", .mark .colon, .type .int, .mark .assign, .ident "n",
    .ident "g", .mark .openParen, .ident "k", .mark .colon, .type .int, .mark .closeParen,
    .mark .colon, .type .int,
    .keyword .returnWord, .ident "k", .keyword .endWord,
    .ident "m", .mark .assign, .ident "n", .keyword .endWord]
  kinds.map fun kind => ⟨kind, default⟩

theorem scoped_of_parse_shadowing :
    ∃ p, parse shadowTokens = .ok p ∧ ⟨.assign "m" 4, default⟩ ∈ p.nodes ∧
      (Statement.assign "m" 4).Uses p "m" ∧ (Statement.assign "m" 4).Uses p "n" ∧
      ∃ last s t, last.program = p ∧
        Parse.Adds (Parse.start shadowTokens) last ⟨.assign "m" 4, default⟩ s t ∧
        openBlocks? s.program.items = some s.blocks ∧
        ∀ name, (Statement.assign "m" 4).Uses p name →
          ∃ v, s.program.resolve? s.function? name = some v ∧ v.name = name ∧
            v.owner = s.function? ∧ Parse.Means (Parse.start shadowTokens) s name v := by
  have accepted : (parse shadowTokens).map (fun p => (p.statements[6]?, (p.expr 4).kind)) =
      .ok (some ⟨.assign "m" 4, default⟩, .variable "n") := by
    decide +kernel
  obtain ⟨p, parsed, seen⟩ := map_eq_ok_iff.1 accepted
  obtain ⟨listed, kind⟩ := Prod.mk.inj seen
  have mem : ⟨.assign "m" 4, default⟩ ∈ p.nodes := by
    have mem : _ ∈ p.statements.toList := Array.mem_toList_iff.2 (Array.mem_of_getElem? listed)
    exact List.mem_append_left _ (List.mem_append_left _ mem)
  have names : (p.expr 4).kind.named? = some "n" := by
    rw [kind]
    rfl
  refine ⟨p, parsed, mem, .inl rfl, .inr ⟨4, ?_, 4, .refl, names⟩, scoped_of_parse parsed mem⟩
  exact List.mem_singleton_self 4

end StackLang.Source
