import StackLang.Proofs.Machine.Modular

/-!
# Quotients and remainders

`div` works in the width of its left operand and `mod` on both words as integers of 64 bits. On
operands of one tag whose words are within the width the two views are the same, so the quotient
and the remainder are those of the numbers: `answers_division` multiplies back and finds the left
operand again. The quotient of the least integer by minus one is out of range, and its residue
does as well.
-/

namespace StackLang

open Bytecode

/-- The width of a tag whose numbers are integers of 64 bits if their words are within it. -/
def Tag.divided? : Tag → Option Nat
  | .int => some 64
  | .u8 => some 8
  | .u16 => some 16
  | .u32 => some 32
  | .u64 | .float | .double | .char | .ptr | .reg | .top => none

theorem Tag.cases_of_divided {t : Tag} {width : Nat} (h : t.divided? = some width) :
    (t = .int ∧ width = 64) ∨ t.narrow? = some (width, t) := by
  cases t <;> cases h
  case int => exact .inl ⟨rfl, rfl⟩
  all_goals exact .inr rfl

theorem Tag.integral_of_divided {t : Tag} {width : Nat} (h : t.divided? = some width) :
    t.integral? = some (width, t) := by
  cases t <;> cases h <;> rfl

namespace Value

variable {v : Value} {width : Nat} {m : Int}

theorem integer_of_int (h : v.tag = .int) : v.integer? = some v.word.toInt := by
  rw [integer?, h]

theorem integer_of_narrow {tag : Tag} (h : v.tag.narrow? = some (width, tag)) :
    v.integer? = some (v.word.low width : Int) := by
  obtain ⟨word, t⟩ := v
  cases t <;> cases h <;> rfl

/-- Within the width the number is the word as an integer of 64 bits. -/
theorem integer_of_fits (divided : v.tag.divided? = some width) (fits : v.word.toNat < 2 ^ width) :
    v.integer? = some v.word.toInt := by
  obtain ⟨known, rfl⟩ | narrow := Tag.cases_of_divided divided
  · exact integer_of_int known
  · have few := Tag.le_of_narrow narrow
    have small := Nat.pow_le_pow_right (by decide : 0 < 2) few
    rw [integer_of_narrow narrow, Word.low, Nat.mod_eq_of_lt fits, Word.toInt, if_pos (by omega)]

/-- A number has the residue of its word. -/
theorem integer_modEq {tag : Tag} (integral : v.tag.integral? = some (width, tag))
    (h : v.integer? = some m) : m ≡ v.word.toNat [ZMOD 2 ^ width] := by
  obtain ⟨word, t⟩ := v
  cases t <;> cases integral <;> cases h
  case int => exact Word.toInt_modEq word
  case u64 | ptr => rfl
  all_goals
    dsimp only
    rw [Word.low, Int.natCast_mod]
    exact Int.mod_modEq _ _

/-- The number behind a word that holds the residue of `x`. -/
theorem exists_integer {t tag : Tag} (integral : t.integral? = some (width, tag)) {w : Word}
    {x : Int} (residue : (w.toNat : Int) = x % 2 ^ width) :
    ∃ k, (⟨w, t⟩ : Value).integer? = some k ∧ k ≡ x [ZMOD 2 ^ width] := by
  have number : ∃ k, (⟨w, t⟩ : Value).integer? = some k := by
    cases t <;> cases integral <;> exact ⟨_, rfl⟩
  obtain ⟨k, number⟩ := number
  refine ⟨k, number, (integer_modEq integral number).trans ?_⟩
  dsimp only
  rw [residue]
  exact Int.mod_modEq _ _

end Value

/-! ## The functions of the instructions -/

section Division

variable {a b : Value} {width : Nat} {m n : Int}

theorem Arith.exists_apply_div_of_int (op : Op) (known : a.tag = .int) (same : b.tag = .int)
    (ne : b.word.toInt ≠ 0) :
    ∃ w : Word, Arith.div.apply op a b = .ok ⟨w, .int⟩ ∧
      (w.toNat : Int) = a.word.toInt.tdiv b.word.toInt % 2 ^ 64 := by
  have nonzero : ¬ b.word.isZero := by
    intro zero
    rw [Word.isZero_iff] at zero
    exact ne (by rw [Word.toInt, zero]; rfl)
  have computed : Arith.div.apply op a b = .ok (.int (a.word.toInt.tdiv b.word.toInt)) := by
    unfold Arith.apply Arith.signed Value.toSigned
    rw [if_neg fun refused => nonzero refused.2, same, known]
    exact if_neg ne
  exact ⟨_, computed, Word.natCast_toNat_ofInt _⟩

theorem Arith.exists_apply_div_of_narrow (op : Op) {tag : Tag}
    (narrow : a.tag.narrow? = some (width, tag)) (same : b.tag = a.tag)
    (ne : b.word.low width ≠ 0) :
    ∃ w : Word, Arith.div.apply op a b = .ok ⟨w, tag⟩ ∧
      (w.toNat : Int) = (a.word.low width : Int).tdiv (b.word.low width) % 2 ^ width := by
  have small : a.word.low width < 2 ^ width := Nat.mod_lt _ (Nat.two_pow_pos width)
  have below : b.word.low width < 2 ^ width := Nat.mod_lt _ (Nat.two_pow_pos width)
  have few := Nat.pow_le_pow_right (by decide : 0 < 2) (Tag.le_of_narrow narrow)
  have computed := Arith.apply_div_of_narrow op narrow (Value.integer_of_narrow (same ▸ narrow))
  unfold Arith.quotientModulo at computed
  rw [Int.emod_eq_of_lt (Int.natCast_nonneg _) (by omega), Int.toNat_natCast] at computed
  dsimp only at computed
  rw [if_neg ne] at computed
  refine ⟨_, computed, ?_⟩
  have le := Nat.div_le_self (a.word.low width) (b.word.low width)
  have quotient : a.word.low width / b.word.low width < 2 ^ width := by omega
  rw [Word.toNat_ofNat, Nat.mod_eq_of_lt (by omega), ← Int.ofNat_tdiv, Int.emod_eq_of_lt]
  · exact Int.natCast_nonneg _
  · exact_mod_cast quotient

/-- The quotient is that of the numbers modulo the width. -/
theorem Arith.exists_apply_div (op : Op) (divided : a.tag.divided? = some width)
    (same : b.tag = a.tag) (left : a.integer? = some m) (right : b.integer? = some n)
    (ne : n ≠ 0) :
    ∃ w : Word, Arith.div.apply op a b = .ok ⟨w, a.tag⟩ ∧
      (w.toNat : Int) = m.tdiv n % 2 ^ width := by
  obtain ⟨known, rfl⟩ | narrow := Tag.cases_of_divided divided
  · cases (Value.integer_of_int known).symm.trans left
    cases (Value.integer_of_int (same.trans known)).symm.trans right
    rw [known]
    exact exists_apply_div_of_int op known (same.trans known) ne
  · cases (Value.integer_of_narrow narrow).symm.trans left
    cases (Value.integer_of_narrow (same ▸ narrow)).symm.trans right
    exact exists_apply_div_of_narrow op narrow same (Int.natCast_ne_zero.1 ne)

theorem Logic.apply_remainder (a b : Value) :
    Logic.remainder.apply a b = if b.word.toInt = 0 then .error .divideByZero
      else .ok (.int (a.word.toInt.tmod b.word.toInt)) := rfl

/-- Multiplying the quotient back and adding the remainder gives the left operand. -/
theorem Arith.exists_undone (divided : a.tag.divided? = some width)
    (fits : a.word.toNat < 2 ^ width) (left : a.integer? = some m) (right : b.integer? = some n)
    {w : Word} (quotient : (w.toNat : Int) = m.tdiv n % 2 ^ width)
    {r : Value} (remainder : r.integer? = some (m.tmod n)) :
    ∃ p, Arith.mul.apply .mul ⟨w, a.tag⟩ b = .ok p ∧ Arith.add.apply .add p r = .ok a := by
  have integral := Tag.integral_of_divided divided
  obtain ⟨k, number, whole⟩ := Value.exists_integer integral quotient
  obtain ⟨u, multiplied, product⟩ := exists_apply_of_ring (f := .mul) (a := ⟨w, a.tag⟩) .mul
    integral number (Value.operand_of_integer right) rfl
  obtain ⟨l, number', part⟩ := Value.exists_integer integral product
  obtain ⟨s, added, sum⟩ := exists_apply_of_ring (f := .add) (a := ⟨u, a.tag⟩) .add
    integral number' (Value.operand_of_integer remainder) rfl
  refine ⟨⟨u, a.tag⟩, multiplied, ?_⟩
  have back : s.toNat ≡ a.word.toNat [ZMOD 2 ^ width] := calc
    (s.toNat : Int) = (l + m.tmod n) % 2 ^ width := sum
    _ ≡ l + m.tmod n [ZMOD 2 ^ width] := Int.mod_modEq _ _
    _ ≡ k * n + m.tmod n [ZMOD 2 ^ width] := part.add_right _
    _ ≡ m.tdiv n * n + m.tmod n [ZMOD 2 ^ width] := (whole.mul_right n).add_right _
    _ = m := Int.tdiv_mul_add_tmod m n
    _ ≡ a.word.toNat [ZMOD 2 ^ width] := Value.integer_modEq integral left
  have equal : s.toNat = a.word.toNat := by
    have fits : (a.word.toNat : Int) < 2 ^ width := by exact_mod_cast fits
    have below : (s.toNat : Int) < 2 ^ width := by
      rw [sum]
      exact Int.emod_lt_of_pos _ (Int.pow_pos (by decide))
    rw [Int.ModEq, Int.emod_eq_of_lt (Int.natCast_nonneg _) below,
      Int.emod_eq_of_lt (Int.natCast_nonneg _) fits] at back
    exact_mod_cast back
  rw [added, Word.toNat_inj.1 equal]

end Division

theorem Word.isZero_of_toInt {w : Word} (h : w.toInt = 0) : w.isZero := by
  have := w.toNat_lt
  rw [isZero_iff]
  unfold toInt at h
  split at h <;> omega

theorem Word.natAbs_toInt_le (w : Word) : w.toInt.natAbs ≤ 2 ^ 63 := by
  have := w.toNat_lt
  unfold toInt
  split <;> omega

theorem natAbs_tmod_lt (m : Int) {n : Int} (ne : n ≠ 0) : (m.tmod n).natAbs < n.natAbs := by
  rw [Int.natAbs_tmod]
  exact Nat.mod_lt _ (Int.natAbs_pos.2 ne)

/-- A remainder of integers of 64 bits is one. -/
theorem Word.integer_remainder (v w : Word) (ne : w.toInt ≠ 0) :
    (Value.int (v.toInt.tmod w.toInt)).integer? = some (v.toInt.tmod w.toInt) := by
  have below := natAbs_tmod_lt v.toInt ne
  have bound := w.natAbs_toInt_le
  rw [Value.integer_of_int rfl, Value.int, Word.toInt_ofInt (by omega) (by omega)]

namespace Machine

/-- **Quotient and remainder fit together.** Let `a` and `b` have the same tag, of integers or of
8, 16 or 32 bits, and words within its width, and let them stand for `m` and `n`. If `n` is zero,
`div` and `mod` fail with `divideByZero`. Otherwise both succeed, the quotient times `b` and the
remainder together are `a` again, and the remainder is below `n` in size and zero or of the sign
of `m`. -/
theorem answers_division {a b : Value} {width : Nat} {m n : Int}
    (divided : a.tag.divided? = some width) (same : b.tag = a.tag)
    (fits : a.word.toNat < 2 ^ width) (fits' : b.word.toNat < 2 ^ width)
    (left : a.integer? = some m) (right : b.integer? = some n) :
    (n = 0 → Answers .div a b (.error .divideByZero) ∧ Answers .mod a b (.error .divideByZero)) ∧
    (n ≠ 0 → ∃ q p r, Answers .div a b (.ok q) ∧ Answers .mod a b (.ok r) ∧
      Answers .mul q b (.ok p) ∧ Answers .add p r (.ok a) ∧
      ∃ k, r.integer? = some k ∧ k.natAbs < n.natAbs ∧ (k = 0 ∨ k.sign = m.sign)) := by
  have numerator := Value.integer_of_fits divided fits
  have divisor := Value.integer_of_fits (same ▸ divided) fits'
  obtain rfl := Option.some.inj (numerator.symm.trans left)
  obtain rfl := Option.some.inj (divisor.symm.trans right)
  have remainder {r} : Answers .mod a b r ↔ Logic.remainder.apply a b = r := answers_iff rfl
  rw [Logic.apply_remainder] at remainder
  constructor
  · intro zero
    have refused : Arith.div.apply Arith.div.op a b = .error .divideByZero :=
      if_pos ⟨rfl, Word.isZero_of_toInt zero⟩
    exact ⟨(answers_arith_iff .div).2 refused, remainder.2 (if_pos zero)⟩
  · intro ne
    obtain ⟨w, quotient, word⟩ := Arith.exists_apply_div .div divided same left right ne
    have rest := Word.integer_remainder a.word b.word ne
    obtain ⟨p, multiplied, added⟩ := Arith.exists_undone divided fits left right word rest
    refine ⟨⟨w, a.tag⟩, p, _, (answers_arith_iff .div).2 quotient, remainder.2 (if_neg ne),
      (answers_arith_iff .mul).2 multiplied, (answers_arith_iff .add).2 added, _, rest,
      natAbs_tmod_lt _ ne, ?_⟩
    rw [Int.sign_tmod]
    split
    · exact .inl (Int.tmod_eq_zero_of_dvd ‹_›)
    · exact .inr rfl

/-- The least integer by minus one. -/
theorem answers_division_least :
    ∃ q p r, Answers .div (.int (-2 ^ 63)) (.int (-1)) (.ok q) ∧
      Answers .mod (.int (-2 ^ 63)) (.int (-1)) (.ok r) ∧
      Answers .mul q (.int (-1)) (.ok p) ∧ Answers .add p r (.ok (.int (-2 ^ 63))) ∧
      ∃ k, r.integer? = some k ∧ k.natAbs < (-1 : Int).natAbs ∧
        (k = 0 ∨ k.sign = (-2 ^ 63 : Int).sign) := by
  have left : (Value.int (-2 ^ 63)).integer? = some (-2 ^ 63) := by decide
  have right : (Value.int (-1)).integer? = some (-1) := by decide
  have division := answers_division (a := .int (-2 ^ 63)) (b := .int (-1)) rfl rfl
    (Word.toNat_lt _) (Word.toNat_lt _) left right
  exact division.2 (by decide)

end Machine

end StackLang
