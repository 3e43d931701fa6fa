import StackLang.Proofs.Machine.Operands

/-!
# Quotients and comparisons of narrow operands

A left operand of 8, 16 or 32 bits gives a result of that width, but the right operand is not
brought to the width first: it is taken with all of its 64 bits. `answers_narrow` says what
becomes of a quotient and of a comparison, the residue of the right operand modulo `2 ^ 64` being
what counts, and for which operands the residue modulo the width would have given the same: if
the right operand is within the width, or if its residue modulo the width is above the left
operand. In particular a divisor that is a multiple of `2 ^ width` other than zero divides without
a fault.
-/

namespace StackLang

open Bytecode

/-- The width of a narrow tag, and the tag of the results. -/
def Tag.narrow? : Tag → Option (Nat × Tag)
  | .u8 | .char => some (8, .u8)
  | .u16 => some (16, .u16)
  | .u32 => some (32, .u32)
  | .int | .u64 | .float | .double | .ptr | .reg | .top => none

/-- The integer that a value stands for, if its tag is one of integers, characters or addresses. -/
def Value.integer? (v : Value) : Option Int :=
  match v.tag with
  | .int => some v.word.toInt
  | .u8 | .char => some (v.word.low 8)
  | .u16 => some (v.word.low 16)
  | .u32 => some (v.word.low 32)
  | .u64 | .ptr => some v.word.toNat
  | .float | .double | .reg | .top => none

/-- The quotient of a natural by the residue of an integer modulo `2 ^ width`, under a tag. -/
def Arith.quotientModulo (width : Nat) (tag : Tag) (x : Nat) (n : Int) : Except Fault Value :=
  let y := (n % 2 ^ width).toNat
  if y = 0 then .error .divideByZero else .ok ⟨.ofNat (x / y), tag⟩

/-- The comparison of a natural with the residue of an integer modulo `2 ^ width`. -/
def Comparison.modulo (c : Comparison) (width : Nat) (x : Nat) (n : Int) : Value :=
  .truth (c.holds (some (Ord.compare x (n % 2 ^ width).toNat)))

/-- `n` is a natural of the width, or the left operand `x` is below its residue anyway. -/
def Arith.IsNarrow (width x : Nat) (n : Int) : Prop :=
  (0 ≤ n ∧ n < 2 ^ width) ∨ (x : Int) < n % 2 ^ width

/-! ## Residues -/

section Residues

variable {width : Nat} {n : Int}

theorem natCast_residue (width : Nat) (n : Int) :
    ((n % 2 ^ width).toNat : Int) = n % 2 ^ width :=
  Int.toNat_of_nonneg (Int.emod_nonneg n (Int.pow_ne_zero (by decide)))

theorem residue_le (few : width ≤ 64) : (n % 2 ^ width).toNat ≤ (n % 2 ^ 64).toNat := by
  have divides : (2 : Int) ^ width ∣ 2 ^ 64 := ⟨2 ^ (64 - width), by
    rw [← Int.pow_add, Nat.add_sub_cancel' few]⟩
  have residue : (n % 2 ^ 64).toNat % 2 ^ width = (n % 2 ^ width).toNat := by
    have := Int.emod_emod_of_dvd n divides
    rw [← natCast_residue 64 n, ← natCast_residue width n] at this
    exact_mod_cast this
  rw [← residue]
  exact Nat.mod_le _ _

/-- A number of 64 bits that is not within the width is at least `2 ^ width` modulo `2 ^ 64`. -/
theorem le_residue (few : width ≤ 63) (lo : -2 ^ 63 ≤ n) (hi : n < 2 ^ 64)
    (wide : ¬ (0 ≤ n ∧ n < 2 ^ width)) : 2 ^ width ≤ (n % 2 ^ 64).toNat := by
  have bound : 2 ^ width ≤ 2 ^ 63 := Nat.pow_le_pow_right (by decide) few
  by_cases sign : 0 ≤ n
  · have : ¬ n < ((2 ^ width : Nat) : Int) := by
      push_cast
      exact fun lt => wide ⟨sign, lt⟩
    omega
  · omega

/-- Where the operands are narrow, both residues are the same or both are above `x`. -/
theorem residues_of_isNarrow {x : Nat} (few : width ≤ 64) (narrow : Arith.IsNarrow width x n) :
    (n % 2 ^ 64).toNat = (n % 2 ^ width).toNat ∨
      (x < (n % 2 ^ width).toNat ∧ x < (n % 2 ^ 64).toNat) := by
  obtain ⟨sign, within⟩ | below := narrow
  · have bound : (2 : Int) ^ width ≤ 2 ^ 64 := by
      exact_mod_cast Nat.pow_le_pow_right (by decide : 0 < 2) few
    left
    rw [Int.emod_eq_of_lt sign within, Int.emod_eq_of_lt sign (by omega)]
  · right
    rw [← natCast_residue] at below
    have := residue_le (n := n) few
    omega

/-- Where they are not, `x` is above the residue modulo the width and below the other one. -/
theorem residues_of_not_isNarrow {x : Nat} (few : width ≤ 63) (lo : -2 ^ 63 ≤ n) (hi : n < 2 ^ 64)
    (small : x < 2 ^ width) (wide : ¬ Arith.IsNarrow width x n) :
    (n % 2 ^ width).toNat ≤ x ∧ x < (n % 2 ^ 64).toNat := by
  unfold Arith.IsNarrow at wide
  rw [not_or, ← natCast_residue] at wide
  have := le_residue few lo hi wide.1
  omega

end Residues

/-! ## The functions of the instructions -/

theorem Tag.le_of_narrow {t tag : Tag} {width : Nat} (h : t.narrow? = some (width, tag)) :
    width ≤ 32 := by
  cases t <;> cases h <;> decide

namespace Value

variable {v : Value} {n : Int}

theorem toUnsigned_of_narrow {width : Nat} {tag : Tag} (h : v.tag.narrow? = some (width, tag)) :
    v.toUnsigned = v.word.low width := by
  unfold toUnsigned
  cases known : v.tag
  all_goals
    rw [known] at h
    cases h
  all_goals rfl

theorem bounds_of_integer (h : v.integer? = some n) : -2 ^ 63 ≤ n ∧ n < 2 ^ 64 := by
  have := v.word.toNat_lt
  unfold integer? Word.low Word.toInt at h
  split at h
  all_goals cases h
  all_goals omega

/-- The conversion to a natural takes the residue modulo `2 ^ 64`. -/
theorem toUnsigned_of_integer (h : v.integer? = some n) : v.toUnsigned = (n % 2 ^ 64).toNat := by
  have := v.word.toNat_lt
  unfold integer? Word.low Word.toInt at h
  unfold toUnsigned Word.low
  cases known : v.tag
  all_goals
    rw [known] at h
    cases h
  all_goals
    dsimp only
    omega

theorem toUnsigned_of_isZero (h : v.integer? = some n) (zero : v.word.isZero) :
    v.toUnsigned = 0 := by
  rw [Word.isZero_iff] at zero
  unfold integer? at h
  unfold toUnsigned Word.low
  cases known : v.tag
  all_goals
    rw [known] at h
    cases h
  all_goals simp [zero]

end Value

/-- What a width leaves of a number of that width. -/
theorem Word.ofInt_mod_of_lt {width q : Nat} (lt : q < 2 ^ width) :
    Word.ofInt ((q : Int) % 2 ^ width) = .ofNat q := by
  have below : (q : Int) < 2 ^ width := by exact_mod_cast lt
  rw [Int.emod_eq_of_lt (Int.natCast_nonneg q) below, ← Word.toNat_inj]
  unfold Word.ofInt
  rw [Word.toNat_ofNat, Word.toNat_ofNat]
  omega

namespace Arith

variable {a b : Value} {width : Nat} {tag : Tag} {n : Int} {x : Nat}

theorem apply_of_narrow (f : Arith) (op : Op) (h : a.tag.narrow? = some (width, tag)) :
    f.apply op a b =
      if f = .div ∧ b.word.isZero then .error .divideByZero
      else f.unsigned width tag (a.word.low width) b.toUnsigned := by
  unfold apply
  rw [← Value.toUnsigned_of_narrow h]
  cases known : a.tag
  all_goals
    rw [known] at h
    cases h
  all_goals rfl

theorem apply_div_of_narrow (op : Op) (narrow : a.tag.narrow? = some (width, tag))
    (integer : b.integer? = some n) :
    Arith.div.apply op a b = quotientModulo 64 tag (a.word.low width) n := by
  have small : a.word.low width < 2 ^ width := Nat.mod_lt _ (Nat.two_pow_pos width)
  have divisor := Value.toUnsigned_of_integer integer
  unfold quotientModulo
  rw [apply_of_narrow _ _ narrow, ← divisor]
  split
  · rename_i refused
    rw [if_pos (Value.toUnsigned_of_isZero integer refused.2)]
  · unfold unsigned
    dsimp only
    rw [Word.ofInt_mod_of_lt (Nat.lt_of_le_of_lt (Nat.div_le_self _ _) small)]

theorem apply_compare_of_narrow (c : Comparison) (op : Op)
    (narrow : a.tag.narrow? = some (width, tag)) (integer : b.integer? = some n) :
    (Arith.compare c).apply op a b = .ok (c.modulo 64 (a.word.low width) n) := by
  rw [apply_of_narrow _ _ narrow, if_neg (by simp), Value.toUnsigned_of_integer integer]
  rfl

theorem quotientModulo_eq_iff (few : width ≤ 63) (lo : -2 ^ 63 ≤ n) (hi : n < 2 ^ 64)
    (small : x < 2 ^ width) :
    quotientModulo 64 tag x n = quotientModulo width tag x n ↔ IsNarrow width x n := by
  unfold quotientModulo
  dsimp only
  constructor
  · intro same
    refine Classical.byContradiction fun wide => ?_
    obtain ⟨le, lt⟩ := residues_of_not_isNarrow few lo hi small wide
    rw [if_neg (by omega), Nat.div_eq_of_lt lt] at same
    split at same
    · cases same
    · rename_i positive
      -- The quotient by the smaller residue is at least one, and no more than `x`.
      have quotient := congrArg Word.toNat (Value.mk.inj (Except.ok.inj same)).1
      have := Nat.div_pos le (Nat.pos_of_ne_zero positive)
      have := Nat.div_le_self x (n % 2 ^ width).toNat
      have := Nat.pow_le_pow_right (by decide : 0 < 2) few
      rw [Word.toNat_ofNat, Word.toNat_ofNat] at quotient
      omega
  · intro narrow
    obtain same | ⟨lt, lt'⟩ := residues_of_isNarrow (Nat.le_succ_of_le few) narrow
    · rw [same]
    · rw [if_neg (by omega), if_neg (by omega), Nat.div_eq_of_lt lt, Nat.div_eq_of_lt lt']

end Arith

theorem Comparison.modulo_eq_iff {width x : Nat} {n : Int} (few : width ≤ 63)
    (lo : -2 ^ 63 ≤ n) (hi : n < 2 ^ 64) (small : x < 2 ^ width) :
    (∀ c : Comparison, c.modulo 64 x n = c.modulo width x n) ↔ Arith.IsNarrow width x n := by
  unfold Comparison.modulo
  constructor
  · intro same
    refine Classical.byContradiction fun wide => ?_
    obtain ⟨le, lt⟩ := residues_of_not_isNarrow few lo hi small wide
    have less := same .less
    rw [Nat.compare_eq_lt.2 lt] at less
    have := Nat.compare_ne_lt.2 le
    cases order : Ord.compare x (n % 2 ^ width).toNat
    · exact this order
    all_goals
      rw [order] at less
      exact absurd less (by decide)
  · intro narrow c
    obtain same | ⟨lt, lt'⟩ := residues_of_isNarrow (Nat.le_succ_of_le few) narrow
    · rw [same]
    · rw [Nat.compare_eq_lt.2 lt, Nat.compare_eq_lt.2 lt']

theorem Arith.quotientModulo_eq_error_iff {width x : Nat} {tag : Tag} {n : Int} :
    quotientModulo width tag x n = .error .divideByZero ↔ n % 2 ^ width = 0 := by
  have residue := natCast_residue width n
  unfold quotientModulo
  dsimp only
  split
  · exact iff_of_true rfl (by omega)
  · exact iff_of_false nofun (by omega)

namespace Machine

section Narrow

variable {a b : Value} {width : Nat} {tag : Tag} {n : Int}

theorem answers_div_iff (narrow : a.tag.narrow? = some (width, tag)) (integer : b.integer? = some n)
    {r : Except Fault Value} :
    Answers .div a b r ↔ Arith.quotientModulo 64 tag (a.word.low width) n = r := by
  rw [← Arith.apply_div_of_narrow .div narrow integer]
  exact answers_arith_iff .div

theorem answers_compare_iff (narrow : a.tag.narrow? = some (width, tag))
    (integer : b.integer? = some n) (c : Comparison) {v : Value} :
    Answers (Arith.compare c).op a b (.ok v) ↔ c.modulo 64 (a.word.low width) n = v := by
  rw [answers_arith_iff, Arith.apply_compare_of_narrow c _ narrow integer, Except.ok.injEq]

/-- **Quotients and comparisons of narrow operands.** Let the left operand `a` have a tag of 8, 16
or 32 bits and the right one stand for the integer `n`. Then `div` and the comparisons work on the
natural that `a` stands for and on the residue of `n` modulo `2 ^ 64`, and `div` fails only for
`n = 0`. They give what they would give for the residue modulo the width if and only if `n` is
within the width or that residue is above `a`. -/
theorem answers_narrow (narrow : a.tag.narrow? = some (width, tag))
    (integer : b.integer? = some n) :
    Answers .div a b (Arith.quotientModulo 64 tag (a.word.low width) n) ∧
    (∀ c : Comparison,
      Answers (Arith.compare c).op a b (.ok (c.modulo 64 (a.word.low width) n))) ∧
    (Answers .div a b (.error .divideByZero) ↔ n = 0) ∧
    (Answers .div a b (Arith.quotientModulo width tag (a.word.low width) n) ↔
      Arith.IsNarrow width (a.word.low width) n) ∧
    ((∀ c : Comparison,
      Answers (Arith.compare c).op a b (.ok (c.modulo width (a.word.low width) n))) ↔
      Arith.IsNarrow width (a.word.low width) n) := by
  have few := Tag.le_of_narrow narrow
  have small : a.word.low width < 2 ^ width := Nat.mod_lt _ (Nat.two_pow_pos width)
  obtain ⟨lo, hi⟩ := Value.bounds_of_integer integer
  have quotient {r} := answers_div_iff narrow integer (r := r)
  have comparison := answers_compare_iff narrow integer
  refine ⟨quotient.2 rfl, fun c => (comparison c).2 rfl, ?_, ?_, ?_⟩
  · rw [quotient, Arith.quotientModulo_eq_error_iff]
    omega
  · rw [quotient, Arith.quotientModulo_eq_iff (by omega) lo hi small]
  · simp only [comparison]
    exact Comparison.modulo_eq_iff (by omega) lo hi small

end Narrow

/-- Five of 8 bits by minus one of 64 bits, which is 255 modulo `2 ^ 8`. -/
theorem answers_narrow_negative :
    Answers .div ⟨.ofNat 5, .u8⟩ (.int (-1)) (.ok ⟨.ofNat 0, .u8⟩) := by
  have narrow : (⟨.ofNat 5, .u8⟩ : Value).tag.narrow? = some (8, .u8) := rfl
  have integer : (Value.int (-1)).integer? = some (-1) := by decide
  exact (answers_narrow narrow integer).1

/-- A divisor that is zero modulo the width but not zero divides, and a number is not equal to one
that it is equal to modulo the width. -/
theorem answers_multiple_of_width :
    ((Value.int 256).integer? = some 256 ∧ (256 : Int) % 2 ^ 8 = 0 ∧
      ¬ Answers .div ⟨.ofNat 5, .u8⟩ (.int 256) (.error .divideByZero)) ∧
    (Value.int 261).integer? = some 261 ∧ (261 : Int) % 2 ^ 8 = 5 ∧
      ¬ Answers .cmpe ⟨.ofNat 5, .u8⟩ (.int 261) (.ok (.truth true)) := by
  have narrow : (⟨.ofNat 5, .u8⟩ : Value).tag.narrow? = some (8, .u8) := rfl
  have divisor : (Value.int 256).integer? = some 256 := by decide
  have compared : (Value.int 261).integer? = some 261 := by decide
  refine ⟨⟨divisor, by decide, ?_⟩, compared, by decide, ?_⟩
  · rw [answers_div_iff narrow divisor, Arith.quotientModulo_eq_error_iff]
    decide
  · refine (not_congr (answers_compare_iff narrow compared .equal)).2 ?_
    decide

end Machine

end StackLang
