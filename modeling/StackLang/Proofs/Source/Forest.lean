import Mathlib.Data.List.Nodup
import Mathlib.Data.List.Pairwise
import Mathlib.Data.List.Perm.Subperm
import StackLang.Source.Program

/-!
# The forest of expressions

The expressions of a program refer to each other by position. `Program.Built` says what holds of
them while a program is built: every expression stands behind the ones it is made of, no expression
is used twice, and the types of operands and arguments are what they were checked to be. The
expressions that are built but not used yet are its `pending` ones: a new expression uses some of
them, and becomes one itself.
-/

namespace StackLang.Source

/-- The expressions whose types the check of an expression depends on. -/
def ExprKind.checked : ExprKind → List ExprId
  | .binary _ left right => [left, right]
  | .call _ args | .foreignCall _ args => args
  | _ => []

theorem ExprKind.checked_subset_children (k : ExprKind) : k.checked ⊆ k.children := by
  cases k <;> simp [checked, children]

/-- The expressions that a statement is made of. -/
def Statement.exprs : Statement → List ExprId
  | .declare d => d.size.toList ++ d.values
  | .assign _ value | .assignField _ _ value => [value]
  | .assignElement _ index value => [index, value]
  | .call _ args => args
  | .ifThen value | .whileThen value | .giveBack value | .evaluate value | .native _ value =>
    [value]
  | .function _ | .otherwise _ _ | .opening _ | .closing _ => []

namespace Program

variable {p q : Program}

/-! ## Expressions -/

/-- The program with one more expression. -/
def push (p : Program) (e : Expr) : Program := { p with exprs := (p.exprs.alloc e).2 }

@[simp] theorem size_push (p : Program) (e : Expr) :
    (p.push e).exprs.size = p.exprs.size + 1 := by
  simp [push]

theorem expr_push (p : Program) (e : Expr) (id : ExprId) :
    (p.push e).expr id = if id = p.exprs.size then e else p.expr id := by
  unfold expr push
  dsimp only
  rw [Arena.get?_alloc]
  split <;> rfl

@[simp] theorem expr_push_size (p : Program) (e : Expr) : (p.push e).expr p.exprs.size = e := by
  rw [expr_push, if_pos rfl]

theorem expr_push_of_lt {id : ExprId} (h : id < p.exprs.size) (e : Expr) :
    (p.push e).expr id = p.expr id := by
  rw [expr_push, if_neg (Nat.ne_of_lt h)]

@[simp] theorem size_retype (p : Program) (id : ExprId) (type : DataType) :
    (p.retype id type).exprs.size = p.exprs.size := by
  simp [retype]

@[simp] theorem kind_retype (p : Program) (id j : ExprId) (type : DataType) :
    ((p.retype id type).expr j).kind = (p.expr j).kind := by
  rw [expr_retype]
  split <;> rfl

theorem expr_retype_of_ne {id j : ExprId} (h : j ≠ id) (type : DataType) :
    (p.retype id type).expr j = p.expr j := by
  rw [expr_retype, if_neg fun both => h both.1.symm]

theorem type_retype {id : ExprId} (h : id < p.exprs.size) (type : DataType) :
    ((p.retype id type).expr id).type = type := by
  rw [expr_retype, if_pos ⟨rfl, h⟩]

/-! ## Checks -/

/-- As many arguments as parameters, and each of a type that is right for its parameter. -/
def Suits {α : Type} (p : Program) (right : α → DataType → Prop) (params : List α)
    (args : List ExprId) : Prop :=
  List.Forall₂ (fun param arg => right param (p.expr arg).type) params args

theorem Suits.congr {α : Type} {right : α → DataType → Prop} {params : List α}
    {args : List ExprId} (h : p.Suits right params args)
    (same : ∀ id ∈ args, (q.expr id).type = (p.expr id).type) : q.Suits right params args := by
  induction h with
  | nil => exact .nil
  | cons head _ ih =>
    refine .cons ?_ (ih fun id mem => same id (List.mem_cons_of_mem _ mem))
    rwa [same _ List.mem_cons_self]

/-- As many arguments as parameters, and each of a type that meets the one of its parameter. -/
def Fits {α : Type} (p : Program) (typeOf : α → DataType) (params : List α) (args : List ExprId) :
    Prop :=
  p.Suits (fun param type => type.meets (typeOf param)) params args

/-- The operands of an operator meet, and the arguments of a call fit the function. -/
def Checked (p : Program) : ExprKind → Prop
  | .binary _ left right => (p.expr left).type.meets (p.expr right).type
  | .call name args => ∃ f, p.function? name = some f ∧ p.Fits Variable.type f.params args
  | .foreignCall name args => ∃ f, p.foreign? name = some f ∧ p.Fits ForeignParam.type f.params args
  | _ => True

/-- The functions of one program are those that the other one finds. -/
structure Knows (q p : Program) : Prop where
  function {name : String} {f : Function} (h : p.function? name = some f) :
    q.function? name = some f
  foreign {name : String} {f : ForeignFunction} (h : p.foreign? name = some f) :
    q.foreign? name = some f

theorem function?_of_isPrefix (h : p.functions.toList <+: q.functions.toList) {name : String}
    {f : Function} (found : p.function? name = some f) : q.function? name = some f :=
  h.find?_eq_some found

theorem foreign?_of_isPrefix (h : p.symbols.toList <+: q.symbols.toList) {name : String}
    {f : ForeignFunction} (found : p.foreign? name = some f) : q.foreign? name = some f :=
  h.findSome?_eq_some found

theorem struct?_of_isPrefix (h : p.symbols.toList <+: q.symbols.toList) {name : String}
    {s : StructType} (found : p.struct? name = some s) : q.struct? name = some s :=
  h.findSome?_eq_some found

theorem Knows.of_isPrefix (functions : p.functions.toList <+: q.functions.toList)
    (symbols : p.symbols.toList <+: q.symbols.toList) : q.Knows p :=
  ⟨function?_of_isPrefix functions, foreign?_of_isPrefix symbols⟩

theorem Checked.congr {k : ExprKind} (h : p.Checked k) (known : q.Knows p)
    (same : ∀ id ∈ k.checked, (q.expr id).type = (p.expr id).type) : q.Checked k := by
  cases k with
  | binary op left right =>
    have left := same left (by simp [ExprKind.checked])
    have right := same right (by simp [ExprKind.checked])
    simpa only [Checked, left, right] using h
  | call name args =>
    obtain ⟨f, found, fits⟩ := h
    exact ⟨f, known.function found, Suits.congr fits same⟩
  | foreignCall name args =>
    obtain ⟨f, found, fits⟩ := h
    exact ⟨f, known.foreign found, Suits.congr fits same⟩
  | _ => trivial

/-! ## The forest -/

/-- The expressions that the first `n` ones are made of. -/
def inner (p : Program) (n : Nat) : List ExprId :=
  (List.range n).flatMap fun id => (p.expr id).kind.children

/-- The expressions that statements and declarations are made of. -/
def placed (p : Program) : List ExprId :=
  p.statements.toList.flatMap (·.item.exprs) ++
    p.globals.toList.flatMap (fun d => (Statement.declare d.item).exprs) ++
    p.libraries.toList.map (·.item)

/-- The expressions that are used, each time they are. -/
def used (p : Program) : List ExprId := p.inner p.exprs.size ++ p.placed

theorem inner_congr {n : Nat} (h : ∀ id < n, (q.expr id).kind = (p.expr id).kind) :
    q.inner n = p.inner n := by
  unfold inner
  rw [List.flatMap_def, List.flatMap_def]
  refine congrArg List.flatten (List.map_congr_left fun id mem => ?_)
  rw [h id (List.mem_range.1 mem)]

theorem inner_succ (p : Program) (n : Nat) :
    p.inner (n + 1) = p.inner n ++ (p.expr n).kind.children := by
  rw [inner, List.range_succ, List.flatMap_append, List.flatMap_singleton]
  rfl

theorem mem_inner {n : Nat} {id : ExprId} :
    id ∈ p.inner n ↔ ∃ k < n, id ∈ (p.expr k).kind.children := by
  simp [inner]

/-- An expression that occurs once is part of one expression at most. -/
theorem eq_of_mem_children {n i j : Nat} {id : ExprId} (single : (p.inner n).Nodup) (hi : i < n)
    (hj : j < n) (left : id ∈ (p.expr i).kind.children) (right : id ∈ (p.expr j).kind.children) :
    i = j := by
  by_contra ne
  have disjoint := (List.nodup_flatMap.1 single).2
  have : Std.Symm (Function.onFun List.Disjoint fun k => (p.expr k).kind.children) :=
    ⟨fun _ _ h _ left right => h right left⟩
  exact disjoint.forall (List.mem_range.2 hi) (List.mem_range.2 hj) ne left right

/-- What holds of a program while it is built. -/
structure Built (p : Program) (pending : List ExprId) : Prop where
  /-- Every expression that is pending or used in a statement is there. -/
  bounded : ∀ id ∈ pending ++ p.placed, id < p.exprs.size
  /-- Every expression stands behind the ones it is made of. -/
  below : ∀ id < p.exprs.size, ∀ c ∈ (p.expr id).kind.children, c < id
  /-- No expression is used twice. -/
  single : (pending ++ p.used).Nodup
  /-- Every expression has the types that it was checked for. -/
  checked : ∀ id < p.exprs.size, p.Checked (p.expr id).kind

namespace Built

variable {pending ids : List ExprId}

/-- The pending expressions may be taken in any order, and some of them may be dropped. -/
theorem weaken (h : p.Built pending) (sub : ids.Subperm pending) : p.Built ids where
  bounded id mem := by
    rcases List.mem_append.1 mem with mem | mem
    · exact h.bounded id (List.mem_append_left _ (sub.subset mem))
    · exact h.bounded id (List.mem_append_right _ mem)
  below := h.below
  single := by
    obtain ⟨more, same, sublist⟩ := (List.subperm_append_right p.used).2 sub
    exact same.nodup_iff.1 (h.single.sublist sublist)
  checked := h.checked

theorem lt_of_mem_inner (h : p.Built pending) {id : ExprId} (mem : id ∈ p.inner p.exprs.size) :
    id < p.exprs.size := by
  obtain ⟨k, lt, child⟩ := mem_inner.1 mem
  exact Nat.lt_trans (h.below k lt id child) lt

theorem lt_of_mem_used (h : p.Built pending) {id : ExprId} (mem : id ∈ pending ++ p.used) :
    id < p.exprs.size := by
  rw [List.mem_append, used, List.mem_append] at mem
  rcases mem with mem | mem | mem
  · exact h.bounded id (List.mem_append_left _ mem)
  · exact h.lt_of_mem_inner mem
  · exact h.bounded id (List.mem_append_right _ mem)

/-- A new expression uses pending ones and is pending itself. -/
theorem push (kind : ExprKind) {type : DataType} {loc : Location}
    (h : p.Built (kind.children ++ ids)) (checked : p.Checked kind) :
    (p.push ⟨kind, type, loc⟩).Built (p.exprs.size :: ids) := by
  have known : (p.push ⟨kind, type, loc⟩).Knows p := ⟨id, id⟩
  have old {id : ExprId} (lt : id < p.exprs.size) :
      (p.push ⟨kind, type, loc⟩).expr id = p.expr id := expr_push_of_lt lt _
  have inner : (p.push ⟨kind, type, loc⟩).inner p.exprs.size = p.inner p.exprs.size :=
    inner_congr fun id lt => by rw [old lt]
  have used : (p.push ⟨kind, type, loc⟩).used =
      p.inner p.exprs.size ++ kind.children ++ p.placed := by
    rw [Program.used, size_push, inner_succ, expr_push_size, inner]
    rfl
  have children {id : ExprId} (mem : id ∈ kind.children) : id < p.exprs.size :=
    h.bounded id (by simp [mem])
  constructor
  · intro id mem
    rw [size_push]
    rcases List.mem_cons.1 mem with rfl | mem
    · exact Nat.lt_succ_self _
    · refine Nat.lt_succ_of_lt (h.bounded id ?_)
      rw [List.append_assoc]
      exact List.mem_append_right _ mem
  · intro id lt c mem
    rw [size_push] at lt
    rcases Nat.lt_succ_iff_lt_or_eq.1 lt with lt | rfl
    · rw [old lt] at mem
      exact h.below id lt c mem
    · rw [expr_push_size] at mem
      exact children mem
  · have same : (kind.children ++ ids ++ p.used).Perm
        (ids ++ (p.inner p.exprs.size ++ kind.children ++ p.placed)) := by
      rw [List.perm_iff_count]
      intro id
      simp only [Program.used, List.count_append]
      omega
    rw [used, List.cons_append, List.nodup_cons]
    refine ⟨fun mem => ?_, same.nodup_iff.1 h.single⟩
    exact Nat.lt_irrefl _ (h.lt_of_mem_used (same.mem_iff.2 mem))
  · intro id lt
    rw [size_push] at lt
    rcases Nat.lt_succ_iff_lt_or_eq.1 lt with lt | rfl
    · rw [old lt]
      refine (h.checked id lt).congr known fun c mem => ?_
      rw [old (Nat.lt_trans (h.below id lt c (ExprKind.checked_subset_children _ mem)) lt)]
    · rw [expr_push_size]
      refine checked.congr known fun c mem => ?_
      rw [old (children (ExprKind.checked_subset_children _ mem))]

/-- Pending expressions are placed into statements. -/
theorem place (pending : List ExprId) (h : p.Built (pending ++ ids)) (exprs : q.exprs = p.exprs)
    (placed : q.placed.Perm (pending ++ p.placed)) (known : q.Knows p) : q.Built ids := by
  have same (id : ExprId) : q.expr id = p.expr id := by rw [expr, exprs, expr]
  have inner : q.inner q.exprs.size = p.inner p.exprs.size := by
    rw [exprs]
    exact inner_congr fun id _ => by rw [same]
  constructor
  · intro id mem
    rw [exprs]
    refine h.bounded id ?_
    rw [List.mem_append, placed.mem_iff] at mem
    simp only [List.mem_append] at mem ⊢
    tauto
  · intro id lt c mem
    rw [exprs] at lt
    rw [same] at mem
    exact h.below id lt c mem
  · have all : (pending ++ ids ++ p.used).Perm (ids ++ q.used) := by
      rw [List.perm_iff_count] at placed ⊢
      intro id
      have := placed id
      simp only [used, inner, List.count_append] at this ⊢
      omega
    exact all.nodup_iff.1 h.single
  · intro id lt
    rw [exprs] at lt
    rw [same]
    exact (h.checked id lt).congr known fun c _ => by rw [same]

/-- The type of an expression that no check depends on may change. -/
theorem retype {id : ExprId} (h : p.Built pending)
    (free : ∀ k < p.exprs.size, id ∉ (p.expr k).kind.checked) (type : DataType) :
    (p.retype id type).Built pending := by
  have inner : (p.retype id type).inner p.exprs.size = p.inner p.exprs.size :=
    inner_congr fun k _ => kind_retype p id k type
  constructor
  · intro k mem
    rw [size_retype]
    exact h.bounded k mem
  · intro k lt c mem
    rw [size_retype] at lt
    rw [kind_retype] at mem
    exact h.below k lt c mem
  · have used : (p.retype id type).used = p.used := by
      rw [used, size_retype, inner]
      rfl
    rw [used]
    exact h.single
  · intro k lt
    rw [size_retype] at lt
    rw [kind_retype]
    refine (h.checked k lt).congr ⟨fun found => found, fun found => found⟩ fun c mem => ?_
    rw [expr_retype_of_ne]
    rintro rfl
    exact free k lt mem

/-- No expression is made of a pending one. -/
theorem not_mem_children (pending : List ExprId) (h : p.Built (pending ++ ids)) {id : ExprId}
    (mem : id ∈ pending) {k : ExprId} (lt : k < p.exprs.size) : id ∉ (p.expr k).kind.children := by
  intro child
  refine (List.disjoint_of_nodup_append h.single) (List.mem_append_left _ mem) ?_
  exact List.mem_append_left _ (mem_inner.2 ⟨k, lt, child⟩)

theorem nodup_children (h : p.Built pending) {k : ExprId} (lt : k < p.exprs.size) :
    (p.expr k).kind.children.Nodup := by
  have inner : (p.inner p.exprs.size).Nodup :=
    (List.nodup_append.1 (List.nodup_append.1 h.single).2.1).1
  exact (List.nodup_flatMap.1 inner).1 k (List.mem_range.2 lt)

/-- What an expression is made of is part of no other one. -/
theorem eq_of_mem_children (h : p.Built pending) {i j : ExprId} (hi : i < p.exprs.size)
    (hj : j < p.exprs.size) {id : ExprId} (left : id ∈ (p.expr i).kind.children)
    (right : id ∈ (p.expr j).kind.children) : i = j :=
  Program.eq_of_mem_children (List.nodup_append.1 (List.nodup_append.1 h.single).2.1).1 hi hj
    left right

end Built

end Program

end StackLang.Source
