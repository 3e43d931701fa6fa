import StackLang.Proofs.Source.Forest

/-!
# Growth of a program

The parse of an expression adds expressions and the functions of libraries to a program and changes
nothing that is there, `Program.Grows`. The functions of a library become symbols, and the
expression of the library lists them all: symbols and expressions get the same functions in the same
order.
-/

namespace StackLang.Source

/-- The foreign functions that an expression declares. -/
def ExprKind.declared : ExprKind → List ForeignFunction
  | .library l => l.functions
  | _ => []

namespace Program

variable {p q r : Program}

/-! ## Libraries among the expressions -/

/-- The foreign functions that the expressions declare, in the order of the arena. -/
def foreignFunctions (p : Program) : List ForeignFunction :=
  (p.exprs.toList.map Expr.kind).flatMap ExprKind.declared

/-- The program with the functions of a library among its symbols. -/
def withForeign (p : Program) (fs : List ForeignFunction) : Program :=
  { p with symbols := p.symbols ++ (fs.map Symbol.foreign).toArray }

@[simp] theorem withForeign_nil (p : Program) : p.withForeign [] = p := by
  simp [withForeign]

theorem withForeign_singleton (p : Program) (f : ForeignFunction) :
    p.withForeign [f] = { p with symbols := p.symbols.push (.foreign f) } := by
  simp [withForeign]

theorem withForeign_append (p : Program) (fs gs : List ForeignFunction) :
    (p.withForeign fs).withForeign gs = p.withForeign (fs ++ gs) := by
  simp [withForeign]

theorem foreignFunctions_push (p : Program) (e : Expr) :
    (p.push e).foreignFunctions = p.foreignFunctions ++ e.kind.declared := by
  simp [foreignFunctions, push]

/-- Only types are changed. -/
theorem foreignFunctions_retype (p : Program) (id : ExprId) (type : DataType) :
    (p.retype id type).foreignFunctions = p.foreignFunctions := by
  have kinds : (p.retype id type).exprs.toList.map Expr.kind = p.exprs.toList.map Expr.kind := by
    apply List.ext_getElem?
    intro j
    rw [List.getElem?_map, List.getElem?_map, ← Arena.get?_eq_getElem?, ← Arena.get?_eq_getElem?,
      retype, Arena.get?_modify]
    split
    · rw [Option.map_map]
      rfl
    · rfl
  rw [foreignFunctions, kinds, foreignFunctions]

/-! ## Growth -/

/-- The program `q` is `p` with more expressions, and the functions of the libraries among them. -/
structure Grows (p q : Program) : Prop where
  size : p.exprs.size ≤ q.exprs.size
  expr : ∀ id < p.exprs.size, q.expr id = p.expr id
  statements : q.statements = p.statements
  globals : q.globals = p.globals
  structs : q.structs = p.structs
  libraries : q.libraries = p.libraries
  functions : q.functions = p.functions
  declared : ∃ fs : List ForeignFunction,
    q.symbols.toList = p.symbols.toList ++ fs.map .foreign ∧
      q.foreignFunctions = p.foreignFunctions ++ fs

namespace Grows

theorem refl (p : Program) : p.Grows p where
  size := Nat.le_refl _
  expr _ _ := rfl
  statements := rfl
  globals := rfl
  structs := rfl
  libraries := rfl
  functions := rfl
  declared := ⟨[], by simp, by simp⟩

theorem trans (h : p.Grows q) (h' : q.Grows r) : p.Grows r where
  size := Nat.le_trans h.size h'.size
  expr id lt := (h'.expr id (Nat.lt_of_lt_of_le lt h.size)).trans (h.expr id lt)
  statements := h'.statements.trans h.statements
  globals := h'.globals.trans h.globals
  structs := h'.structs.trans h.structs
  libraries := h'.libraries.trans h.libraries
  functions := h'.functions.trans h.functions
  declared := by
    obtain ⟨fs, symbols, listed⟩ := h.declared
    obtain ⟨gs, symbols', listed'⟩ := h'.declared
    exact ⟨fs ++ gs, by simp [symbols', symbols], by simp [listed', listed]⟩

/-- The functions of a library are symbols before there is an expression for them. -/
theorem push (p : Program) (e : Expr) : p.Grows ((p.withForeign e.kind.declared).push e) where
  size := by
    rw [size_push]
    exact Nat.le_succ _
  expr id lt := expr_push_of_lt (p := p.withForeign e.kind.declared) lt e
  statements := rfl
  globals := rfl
  structs := rfl
  libraries := rfl
  functions := rfl
  declared := ⟨e.kind.declared, by simp [Program.push, withForeign], foreignFunctions_push _ e⟩

theorem push_of_plain (p : Program) {e : Expr} (plain : e.kind.declared = []) :
    p.Grows (p.push e) := by
  have grows := push p e
  rwa [plain, withForeign_nil] at grows

theorem isPrefix (h : p.Grows q) : p.symbols.toList <+: q.symbols.toList := by
  obtain ⟨fs, symbols, -⟩ := h.declared
  exact ⟨fs.map .foreign, symbols.symm⟩

/-- What is known by name stays known. -/
theorem knows (h : p.Grows q) : q.Knows p :=
  .of_isPrefix (by simp [h.functions]) h.isPrefix

end Grows

end Program

end StackLang.Source
