import StackLang.Proofs.Results
import StackLang.Source.Parse.Statement

/-!
# Single steps

A parse is made of small steps that look at the next tokens or take them. Where these tokens are
known, it is known what such a step gives and what state it leaves. A parse that is said to succeed
is put together from these equations.
-/

namespace StackLang.Source.Parse

variable {s : ParseState}

/-! ## Tokens -/

theorem run_next {kind : TokenKind} {loc : Location} {more : List Token}
    (head : s.rest = ⟨kind, loc⟩ :: more) :
    next.run s = .ok (⟨kind, loc⟩, { s with rest := more }) := by
  have read : (get : Parse ParseState).run s = .ok (s, s) := rfl
  rw [next, run_bind_of_ok read, head]
  rfl

theorem run_skip {first : Token} {more : List Token} (head : s.rest = first :: more) :
    (skip 1).run s = .ok ((), { s with rest := more }) := by
  have dropped : (skip 1).run s = .ok ((), { s with rest := s.rest.drop 1 }) := rfl
  rw [dropped, head]
  rfl

/-! ## Operators -/

/-- The operator that a text starts with. -/
def operatorOf? (kinds : List TokenKind) : Option Operator :=
  match kinds.head? with
  | some (.mark m) => Operator.ofMark? m
  | _ => none

theorem run_nextOperator (s : ParseState) :
    nextOperator.run s = .ok (operatorOf? (s.rest.map Token.kind), s) := by
  have peeked : peek.run s = .ok (s.rest.head?.map Token.kind, s) := rfl
  rw [nextOperator, run_bind_of_ok peeked, operatorOf?, List.head?_map]
  cases s.rest.head?.map Token.kind with
  | none => rfl
  | some kind => cases kind <;> rfl

/-- An expression ends in front of an operator that is too loose. -/
theorem run_climb_of_loose {operand : Parse ExprId} {limit : Nat} {left : ExprId} {least : Nat}
    (loose : ∀ op ∈ operatorOf? (s.rest.map Token.kind), op.precedence < least) :
    (climb operand limit left least).run s = .ok (left, s) := by
  cases limit with
  | zero => rfl
  | succ limit =>
    rw [climb, run_bind_of_ok (run_nextOperator s)]
    split
    · rfl
    · rename_i op next
      rw [if_pos (loose op next)]
      rfl

/-! ## Statements -/

/-- No statement is left at the end of the tokens. -/
theorem run_statements_of_nil (finished : s.rest = []) (limit : Nat) :
    (statements limit).run s = .ok ((), s) := by
  cases limit with
  | zero => rfl
  | succ limit =>
    have read : (get : Parse ParseState).run s = .ok (s, s) := rfl
    rw [statements, run_bind_of_ok read, finished]
    rfl

end StackLang.Source.Parse
