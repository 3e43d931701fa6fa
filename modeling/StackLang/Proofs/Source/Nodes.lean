import Mathlib.Logic.Relation
import StackLang.Proofs.Source.Reading
import StackLang.Proofs.Source.Typing

/-!
# The nodes of a program

A program keeps its statements in three tables, and its nodes are those of all of them. A node that
is added to a program brings all of its expressions with it: what the program had before was used
already, or nothing takes it up any more. `Program.AddsNode` says what that needs, and
`AddsNode.new_of_within` that the expressions of the node are new at every depth.
-/

namespace StackLang.Source

/-- The variable that a statement assigns to, or to a part of. -/
def Statement.target? : Statement → Option String
  | .assign name _ | .assignElement name _ _ | .assignField name _ _ => some name
  | _ => none

namespace Program

variable {p q r : Program}

/-- The statements of all three tables. -/
def nodes (p : Program) : List (Located Statement) :=
  p.statements.toList ++ p.globals.toList.map (fun d => ⟨.declare d.item, d.loc⟩) ++
    p.libraries.toList.map fun value => ⟨.evaluate value.item, value.loc⟩

theorem placed_eq_flatMap_nodes (p : Program) : p.placed = p.nodes.flatMap (·.item.exprs) := by
  have libraries : p.libraries.toList.map (·.item) =
      p.libraries.toList.flatMap fun value => (Statement.evaluate value.item).exprs :=
    List.map_eq_flatMap
  simp only [placed, nodes, libraries, List.flatMap_append, List.flatMap_map]

theorem nodes_push (p : Program) (node : Located Statement) :
    (nodes { p with statements := p.statements.push node }).Perm (node :: p.nodes) := by
  simp only [nodes, Array.toList_push, List.append_assoc]
  exact List.perm_middle

theorem nodes_pushGlobal (p : Program) (d : Located Declaration) :
    (nodes { p with globals := p.globals.push d }).Perm (⟨.declare d.item, d.loc⟩ :: p.nodes) := by
  simp only [nodes, Array.toList_push, List.map_append, List.map_singleton, List.append_assoc]
  exact (List.perm_middle.append_left _).trans List.perm_middle

theorem nodes_pushLibrary (p : Program) (value : Located ExprId) :
    (nodes { p with libraries := p.libraries.push value }).Perm
      (⟨.evaluate value.item, value.loc⟩ :: p.nodes) := by
  simp only [nodes, Array.toList_push, List.map_append, List.map_singleton, ← List.append_assoc]
  exact List.perm_append_singleton _ _

/-- The expression `part` is the expression `whole` or one that it is made of, at any depth. -/
def Within (p : Program) (part whole : ExprId) : Prop :=
  Relation.ReflTransGen (fun k c => c ∈ (p.expr k).kind.children) whole part

/-! ## Expressions that nothing uses -/

/-- The expressions that nothing uses. -/
def spare (p : Program) : List ExprId :=
  (List.range p.exprs.size).filter fun id => decide (id ∉ p.used)

theorem mem_spare {id : ExprId} : id ∈ p.spare ↔ id < p.exprs.size ∧ id ∉ p.used := by
  simp [spare]

/-- All that nothing uses may be called pending. -/
theorem Sound.spare (h : p.Sound []) : p.Sound p.spare where
  built :=
    { h.built with
      bounded := by
        intro id mem
        rcases List.mem_append.1 mem with mem | mem
        · exact (mem_spare.1 mem).1
        · exact h.built.bounded id mem
      single := by
        apply List.Nodup.append
        · exact List.nodup_range.filter _
        · exact h.built.single
        · intro id left right
          exact (mem_spare.1 left).2 right }
  stated := h.stated

/-! ## A node more -/

/-- The program `q` is `p` with one more node. The expressions that nothing used in `p` are pending
in `q`, so that the node has none of them. -/
structure AddsNode (p q : Program) (node : Located Statement) : Prop where
  built : q.Built p.spare
  size : p.exprs.size ≤ q.exprs.size
  kind : ∀ id < p.exprs.size, (q.expr id).kind = (p.expr id).kind
  nodes : q.nodes.Perm (node :: p.nodes)

namespace AddsNode

variable {node : Located Statement}

theorem placed (h : p.AddsNode q node) : q.placed.Perm (node.item.exprs ++ p.placed) := by
  have placed := h.nodes.flatMap_right fun n => n.item.exprs
  rwa [List.flatMap_cons, ← placed_eq_flatMap_nodes, ← placed_eq_flatMap_nodes] at placed

theorem mem_inner (h : p.AddsNode q node) {id : ExprId} (mem : id ∈ p.inner p.exprs.size) :
    ∃ k < p.exprs.size, id ∈ (q.expr k).kind.children := by
  obtain ⟨k, lt, child⟩ := Program.mem_inner.1 mem
  exact ⟨k, lt, by rwa [h.kind k lt]⟩

/-- What is used is not placed as well. -/
theorem not_mem_placed (h : p.AddsNode q node) {k id : ExprId} (lt : k < q.exprs.size)
    (child : id ∈ (q.expr k).kind.children) : id ∉ q.placed := by
  have used : q.used.Nodup := (List.nodup_append.1 h.built.single).2.1
  exact List.disjoint_of_nodup_append used (Program.mem_inner.2 ⟨k, lt, child⟩)

/-- An old expression that `q` uses was used in `p`. -/
theorem mem_used (h : p.AddsNode q node) {id : ExprId} (mem : id ∈ q.used)
    (old : id < p.exprs.size) : id ∈ p.inner p.exprs.size ∨ id ∈ p.placed := by
  by_contra unused
  have spare : id ∈ p.spare := mem_spare.2 ⟨old, fun used => unused (List.mem_append.1 used)⟩
  exact List.disjoint_of_nodup_append h.built.single spare mem

/-- A node is made of new expressions. -/
theorem le_of_mem_exprs (h : p.AddsNode q node) {id : ExprId} (mem : id ∈ node.item.exprs) :
    p.exprs.size ≤ id := by
  by_contra old
  rw [Nat.not_le] at old
  have placed : id ∈ q.placed := h.placed.mem_iff.2 (List.mem_append_left _ mem)
  rcases h.mem_used (List.mem_append_right _ placed) old with inner | before
  · obtain ⟨k, lt, child⟩ := h.mem_inner inner
    exact h.not_mem_placed (Nat.lt_of_lt_of_le lt h.size) child placed
  · have all : q.placed.Nodup :=
      (List.nodup_append.1 (List.nodup_append.1 h.built.single).2.1).2.1
    exact List.disjoint_of_nodup_append (h.placed.nodup_iff.1 all) mem before

/-- A new expression is made of new ones. -/
theorem le_of_mem_children (h : p.AddsNode q node) {k id : ExprId} (new : p.exprs.size ≤ k)
    (lt : k < q.exprs.size) (child : id ∈ (q.expr k).kind.children) : p.exprs.size ≤ id := by
  by_contra old
  rw [Nat.not_le] at old
  have inner : id ∈ q.inner q.exprs.size := Program.mem_inner.2 ⟨k, lt, child⟩
  rcases h.mem_used (List.mem_append_left _ inner) old with inner | before
  · obtain ⟨j, hj, other⟩ := h.mem_inner inner
    have same : j = k := h.built.eq_of_mem_children (Nat.lt_of_lt_of_le hj h.size) lt other child
    omega
  · exact h.not_mem_placed lt child (h.placed.mem_iff.2 (List.mem_append_right _ before))

/-- **The expressions of a node are new at every depth**, and stay the same when the program goes
on to grow. -/
theorem new_of_within (h : p.AddsNode q node)
    (later : ∀ id < q.exprs.size, (r.expr id).kind = (q.expr id).kind) {id whole : ExprId}
    (mem : whole ∈ node.item.exprs) (within : r.Within id whole) :
    p.exprs.size ≤ id ∧ id < q.exprs.size := by
  induction within with
  | refl =>
    have placed : whole ∈ q.placed := h.placed.mem_iff.2 (List.mem_append_left _ mem)
    exact ⟨h.le_of_mem_exprs mem, h.built.bounded whole (List.mem_append_right _ placed)⟩
  | @tail k id _ child ih =>
    obtain ⟨new, lt⟩ := ih
    rw [later k lt] at child
    exact ⟨h.le_of_mem_children new lt child, Nat.lt_trans (h.built.below k lt id child) lt⟩

end AddsNode

end Program

/-- A statement of the program uses a variable of the given name: it assigns to it, or one of its
expressions names it. -/
def Statement.Uses (p : Program) (st : Statement) (name : String) : Prop :=
  st.target? = some name ∨
    ∃ whole ∈ st.exprs, ∃ id, p.Within id whole ∧ (p.expr id).kind.named? = some name

end StackLang.Source
