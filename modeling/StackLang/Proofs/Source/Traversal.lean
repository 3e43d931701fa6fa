import StackLang.Proofs.Source.Nodes
import StackLang.Proofs.Source.Statements

/-!
# Walks over the expressions of a program

A walk over the expressions of an accepted program starts at a node and goes down to what an
expression is made of. It finds every expression that it looks up, it comes to an end because it
goes down to smaller positions only, and it comes to an expression from one place only:
`forest_of_parse`. So an expression that is given another type is seen at one place at most.
-/

namespace StackLang.Source

namespace Program

variable {p : Program}

/-- The places where expressions are used, each with the expressions that are used there: the
expressions of the arena in order, and then the nodes. -/
def places (p : Program) : List (List ExprId) :=
  (List.range p.exprs.size).map (fun id => (p.expr id).kind.children) ++
    p.nodes.map (·.item.exprs)

theorem flatten_places (p : Program) : p.places.flatten = p.used := by
  simp only [places, used, inner, placed_eq_flatMap_nodes, List.flatten_append, List.flatMap_def]

/-- The expression `whole` is made of `part` and perhaps of others. -/
def Part (p : Program) (part whole : ExprId) : Prop := part ∈ (p.expr whole).kind.children

/-- A position without an expression has no parts. -/
theorem Part.lt_size {part whole : ExprId} (h : p.Part part whole) : whole < p.exprs.size := by
  by_contra outside
  have absent : p.exprs.get? whole = none := Arena.get?_eq_none_iff.2 (Nat.not_lt.1 outside)
  rw [Part, expr, absent] at h
  simp [default, ExprKind.children] at h

/-- The expressions of a program are trees: what is used is there, an expression stands behind its
parts, and no expression is used twice. -/
structure IsForest (p : Program) : Prop where
  present : ∀ id ∈ p.used, id < p.exprs.size
  below : ∀ part whole, p.Part part whole → part < whole
  single : p.used.Nodup

theorem Built.isForest {pending : List ExprId} (h : p.Built pending) : p.IsForest where
  present _ mem := h.lt_of_mem_used (List.mem_append_right _ mem)
  below part whole part_of := h.below whole part_of.lt_size part part_of
  single := (List.nodup_append.1 h.single).2.1

namespace IsForest

theorem exists_get? (h : p.IsForest) {id : ExprId} (mem : id ∈ p.used) :
    ∃ e, p.exprs.get? id = some e := by
  cases found : p.exprs.get? id with
  | some e => exact ⟨e, rfl⟩
  | none => exact absurd (h.present id mem) (Nat.not_lt.2 (Arena.get?_eq_none_iff.1 found))

/-- Positions get smaller on the way down. -/
theorem wellFounded_part (h : p.IsForest) : WellFounded p.Part :=
  Subrelation.wf (h.below _ _) Nat.lt_wfRel.wf

/-- An expression is used at one place. -/
theorem place_eq (h : p.IsForest) {i j : Nat} (hi : i < p.places.length)
    (hj : j < p.places.length) {id : ExprId} (left : id ∈ p.places[i])
    (right : id ∈ p.places[j]) : i = j := by
  have single : p.places.flatten.Nodup := by
    rw [flatten_places]
    exact h.single
  have apart := List.pairwise_iff_getElem.1 (List.nodup_flatten.1 single).2
  rcases Nat.lt_trichotomy i j with lt | same | gt
  · exact absurd right (apart i j hi hj lt left)
  · exact same
  · exact absurd left (apart j i hj hi gt right)

/-- Another type of an expression is seen at one place at most. -/
theorem place_eq_of_retype (h : p.IsForest) (id : ExprId) (type : DataType) {i j : Nat}
    (hi : i < p.places.length) (hj : j < p.places.length)
    (left : ∃ k ∈ p.places[i], (p.retype id type).expr k ≠ p.expr k)
    (right : ∃ k ∈ p.places[j], (p.retype id type).expr k ≠ p.expr k) : i = j := by
  have retyped {k : ExprId} (changed : (p.retype id type).expr k ≠ p.expr k) : k = id := by
    by_contra ne
    exact changed (expr_retype_of_ne ne type)
  obtain ⟨k, atLeft, changed⟩ := left
  obtain ⟨l, atRight, changed'⟩ := right
  obtain rfl := retyped changed
  obtain rfl := retyped changed'
  exact h.place_eq hi hj atLeft atRight

end IsForest

end Program

/-- **The expressions of an accepted program are trees.** So each expression that is used can be
looked up, every walk from an expression down to its parts comes to an end, and to give an
expression another type changes what is used at one place at most. -/
theorem forest_of_parse {tokens : List Token} {p : Program} (h : parse tokens = .ok p) :
    p.IsForest ∧ (∀ id ∈ p.used, ∃ e, p.exprs.get? id = some e) ∧ WellFounded p.Part ∧
      ∀ id type i j, ∀ hi : i < p.places.length, ∀ hj : j < p.places.length,
        (∃ k ∈ p.places[i], (p.retype id type).expr k ≠ p.expr k) →
        (∃ k ∈ p.places[j], (p.retype id type).expr k ≠ p.expr k) → i = j := by
  obtain ⟨s, follows, rfl⟩ := Parse.follows_of_parse h
  have forest := (follows.sound Program.sound_empty).built.isForest
  refine ⟨forest, fun id mem => forest.exists_get? mem, forest.wellFounded_part, ?_⟩
  intro id type i j hi hj left right
  exact forest.place_eq_of_retype id type hi hj left right

/-- `a: int[2] = [(1 - 2) * 3 + 4, 5]`, `struct S { x: int[6], }`, `dll "l", f(int): int, end`,
`write f(a[0])`. -/
def walkedTokens : List Token :=
  let kinds : List TokenKind := [
    .ident "a", .mark .colon, .type .int, .mark .openBracket, .integer 2, .mark .closeBracket,
    .mark .assign, .mark .openBracket, .mark .openParen, .integer 1, .mark .minus, .integer 2,
    .mark .closeParen, .mark .times, .integer 3, .mark .plus, .integer 4, .mark .comma, .integer 5,
    .mark .closeBracket,
    .keyword .structWord, .ident "S", .mark .openCurly, .ident "x", .mark .colon, .type .int,
    .mark .openBracket, .integer 6, .mark .closeBracket, .mark .comma, .mark .closeCurly,
    .builtin .dll, .string "l", .mark .comma, .ident "f", .mark .openParen, .type .int,
    .mark .closeParen, .mark .colon, .type .int, .mark .comma, .keyword .endWord,
    .keyword .writeWord, .ident "f", .mark .openParen, .ident "a", .mark .openBracket, .integer 0,
    .mark .closeBracket, .mark .closeParen]
  kinds.map fun kind => ⟨kind, default⟩

/-- The size of the field, at position nine, is used nowhere. -/
theorem forest_of_parse_walked :
    ∃ p, parse walkedTokens = .ok p ∧ p.exprs.size = 14 ∧
      p.used = [1, 2, 3, 4, 5, 6, 11, 12, 13, 0, 7, 8, 10] ∧ p.IsForest ∧ WellFounded p.Part := by
  have accepted : (parse walkedTokens).map (fun p => (p.exprs.size, p.used)) =
      .ok (14, [1, 2, 3, 4, 5, 6, 11, 12, 13, 0, 7, 8, 10]) := by
    decide +kernel
  obtain ⟨p, parsed, seen⟩ := map_eq_ok_iff.1 accepted
  simp only [Prod.mk.injEq] at seen
  obtain ⟨forest, -, ends, -⟩ := forest_of_parse parsed
  exact ⟨p, parsed, seen.1, seen.2, forest, ends⟩

end StackLang.Source
