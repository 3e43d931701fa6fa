import Mathlib.Data.Int.ModEq
import StackLang.Proofs.Machine.Narrow

/-!
# Sums, differences and products

These three operations commute with taking residues, so it does not matter that an operand is
brought to 64 bits, with or without a sign, before the result is cut to the width of the left
operand: the result is the exact one modulo `2 ^ width`, and the bits above the width are zero.
`answers_modular` says so of every left operand that stands for an integer and every right one
that is no float.
-/

namespace StackLang

open Bytecode

/-- The width in bits of what a left operand of integers gives, and its tag. -/
def Tag.integral? : Tag → Option (Nat × Tag)
  | .int => some (64, .int)
  | .u64 | .ptr => some (64, .u64)
  | t => t.narrow?

/-- The integer that a value stands for unless it is a float; that of an operand to be looked up is
its word. -/
def Value.operand? (v : Value) : Option Int :=
  match v.tag with
  | .reg | .top => some v.word.toNat
  | _ => v.integer?

/-- The exact operation of an instruction that commutes with residues. -/
def Arith.ring? : Arith → Option (Int → Int → Int)
  | .add => some (· + ·)
  | .sub => some (· - ·)
  | .mul => some (· * ·)
  | .div | .compare _ => none

theorem Tag.integral_bound {t tag : Tag} {width : Nat} (h : t.integral? = some (width, tag)) :
    width ≤ 64 := by
  cases t <;> cases h <;> decide

theorem Word.natCast_toNat_ofInt (n : Int) : ((ofInt n).toNat : Int) = n % 2 ^ 64 := by
  rw [ofInt, toNat_ofNat, ← natCast_residue 64 n]
  omega

/-- As a two's complement integer or as a natural, a word has the same residue. -/
theorem Word.toInt_modEq (w : Word) : w.toInt ≡ w.toNat [ZMOD 2 ^ 64] := by
  unfold toInt Int.ModEq
  split <;> omega

/-! ## Operands -/

namespace Value

variable {v : Value} {n : Int}

theorem operand_of_integer (h : v.integer? = some n) : v.operand? = some n := by
  unfold operand?
  unfold integer? at h ⊢
  cases known : v.tag
  all_goals
    rw [known] at h
    first | exact h | cases h

theorem toUnsigned_modEq (h : v.operand? = some n) : v.toUnsigned ≡ n [ZMOD 2 ^ 64] := by
  cases integer : v.integer? with
  | some k =>
    obtain rfl := Option.some.inj ((operand_of_integer integer).symm.trans h)
    rw [toUnsigned_of_integer integer, natCast_residue]
    exact Int.mod_modEq _ _
  | none =>
    unfold operand? at h
    unfold toUnsigned
    split at h
    · rename_i known
      rw [known]
      cases h
      rfl
    · rename_i known
      rw [known]
      cases h
      rfl
    · rw [integer] at h
      cases h

/-- With a sign or without, a conversion to 64 bits keeps the residue. -/
theorem toSigned_modEq (h : v.operand? = some n) : v.toSigned ≡ n [ZMOD 2 ^ 64] := by
  have reread : (Word.ofNat v.toUnsigned).toInt ≡ n [ZMOD 2 ^ 64] := by
    refine (Word.toInt_modEq _).trans (Int.ModEq.trans ?_ (toUnsigned_modEq h))
    rw [Word.toNat_ofNat, Int.natCast_mod]
    exact Int.mod_modEq _ _
  unfold toSigned
  cases known : v.tag
  case int =>
    rw [operand?, known, integer?, known] at h
    cases h
    rfl
  case float | double =>
    rw [operand?, known, integer?, known] at h
    cases h
  all_goals exact reread

end Value

/-! ## Results -/

namespace Arith

variable {f : Arith} {g : Int → Int → Int} {width : Nat} {tag : Tag}

/-- Such an operation gives the same residue for operands of the same residues. -/
theorem ring_modEq (h : f.ring? = some g) {k m m' n n' : Int} (left : m ≡ m' [ZMOD k])
    (right : n ≡ n' [ZMOD k]) : g m n ≡ g m' n' [ZMOD k] := by
  cases f with
  | add =>
    cases h
    exact left.add right
  | sub =>
    cases h
    exact left.sub right
  | mul =>
    cases h
    exact left.mul right
  | div | compare => cases h

theorem unsigned_of_ring (h : f.ring? = some g) (width : Nat) (tag : Tag) (x y : Nat) :
    f.unsigned width tag x y = .ok ⟨.ofInt (g x y % 2 ^ width), tag⟩ := by
  cases f <;> cases h <;> rfl

theorem signed_of_ring (h : f.ring? = some g) (x y : Int) :
    f.signed x y = .ok (.int (g x y)) := by
  cases f <;> cases h <;> rfl

theorem ne_div_of_ring (h : f.ring? = some g) : f ≠ .div := by
  rintro rfl
  cases h

/-- The word of a residue modulo a width has just that residue. -/
theorem natCast_toNat_residue (few : width ≤ 64) (n : Int) :
    ((Word.ofInt (n % 2 ^ width)).toNat : Int) = n % 2 ^ width := by
  have positive : (0 : Int) < 2 ^ width := Int.pow_pos (by decide)
  have bound : (2 : Int) ^ width ≤ 2 ^ 64 := by
    exact_mod_cast Nat.pow_le_pow_right (by decide : 0 < 2) few
  have lo := Int.emod_nonneg n positive.ne'
  have hi := Int.emod_lt_of_pos n positive
  rw [Word.natCast_toNat_ofInt, Int.emod_eq_of_lt lo (by omega)]

theorem apply_of_integral (op : Op) {a b : Value} (ne : f ≠ .div)
    (integral : a.tag.integral? = some (width, tag)) :
    f.apply op a b = f.unsigned width tag a.toUnsigned b.toUnsigned ∨
      f.apply op a b = f.signed a.toSigned b.toSigned ∧ width = 64 ∧ tag = .int := by
  unfold apply
  rw [if_neg fun refused => ne refused.1]
  cases known : a.tag
  all_goals
    rw [known] at integral
    cases integral
  case int => exact .inr ⟨rfl, rfl, rfl⟩
  all_goals exact .inl rfl

/-- The result is exact modulo the width. -/
theorem exists_apply_of_ring (op : Op) {a b : Value} {m n : Int}
    (integral : a.tag.integral? = some (width, tag)) (left : a.integer? = some m)
    (right : b.operand? = some n) (h : f.ring? = some g) :
    ∃ w : Word, f.apply op a b = .ok ⟨w, tag⟩ ∧ (w.toNat : Int) = g m n % 2 ^ width := by
  have few := Tag.integral_bound integral
  have left := Value.operand_of_integer left
  have divides : (2 : Int) ^ width ∣ 2 ^ 64 := pow_dvd_pow 2 few
  obtain computed | ⟨computed, rfl, rfl⟩ := apply_of_integral op (b := b) (ne_div_of_ring h) integral
  · rw [computed, unsigned_of_ring h]
    refine ⟨_, rfl, ?_⟩
    rw [natCast_toNat_residue few]
    have same := ring_modEq h (Value.toUnsigned_modEq left) (Value.toUnsigned_modEq right)
    exact same.of_dvd divides
  · rw [computed, signed_of_ring h]
    refine ⟨_, rfl, ?_⟩
    rw [Word.natCast_toNat_ofInt]
    exact ring_modEq h (Value.toSigned_modEq left) (Value.toSigned_modEq right)

end Arith

namespace Machine

/-- **Sums, differences and products are exact modulo the width.** Let the left operand `a` stand
for the integer `m`, and the right one `b`, which is no float, for `n`. Then the instruction
succeeds. Its result has the tag and the width of `a`'s results, its word is the exact result
modulo `2 ^ width`, and the bits above the width are zero. -/
theorem answers_modular {a b : Value} {f : Arith} {g : Int → Int → Int} {width : Nat} {tag : Tag}
    {m n : Int} (integral : a.tag.integral? = some (width, tag)) (left : a.integer? = some m)
    (right : b.operand? = some n) (ring : f.ring? = some g) :
    ∃ w : Word, Answers f.op a b (.ok ⟨w, tag⟩) ∧ (w.toNat : Int) = g m n % 2 ^ width ∧
      w.toNat < 2 ^ width := by
  obtain ⟨w, result, word⟩ := Arith.exists_apply_of_ring f.op integral left right ring
  refine ⟨w, (answers_arith_iff f).2 result, word, ?_⟩
  have below := Int.emod_lt_of_pos (g m n) (b := 2 ^ width) (Int.pow_pos (by decide))
  rw [← word] at below
  exact_mod_cast below

/-- A byte with bits left over above it, times minus two. -/
theorem answers_modular_stale :
    ∃ w : Word, Answers .mul ⟨.ofNat 0x1ff, .char⟩ (.int (-2)) (.ok ⟨w, .u8⟩) ∧
      (w.toNat : Int) = 255 * -2 % 2 ^ 8 ∧ w.toNat < 2 ^ 8 := by
  have integral : (⟨.ofNat 0x1ff, .char⟩ : Value).tag.integral? = some (8, .u8) := rfl
  have left : (⟨.ofNat 0x1ff, .char⟩ : Value).integer? = some 255 := by decide
  have right : (Value.int (-2)).operand? = some (-2) := by decide
  exact answers_modular (f := .mul) integral left right rfl

end Machine

end StackLang
