import StackLang.Proofs.Machine.Operands
import StackLang.Proofs.Numeric.Patterns

/-!
# Divisors that are zero

A quotient of floats is refused by two guards. That of `div` looks at the word of the divisor, all
64 bits of it, before the tag is looked at; that of `div_f` looks at the number. `answers_float_div`
says what this makes of a divisor that stands for zero while its word is not zero: a negative zero,
or a word whose upper bits are left over from another tag. `div` then gives a quotient by zero,
which is no finite number, where `div_f` fails.
-/

namespace StackLang

open Bytecode Numeric

/-- The format that a tag of floats works in. -/
def Tag.format? : Tag → Option Binary
  | .float => some .single
  | .double => some .double
  | _ => none

theorem Tag.cases_of_format {t : Tag} {format : Binary} (h : t.format? = some format) :
    (t = .float ∧ format = .single) ∨ (t = .double ∧ format = .double) := by
  cases t <;> cases h
  · exact .inl ⟨rfl, rfl⟩
  · exact .inr ⟨rfl, rfl⟩

/-- What a value stands for under its own tag is zero. Of a float only the sign may be set. -/
def Value.DenotesZero (v : Value) : Prop :=
  match v.tag with
  | .u8 | .char => v.word.low 8 = 0
  | .u16 => v.word.low 16 = 0
  | .u32 => v.word.low 32 = 0
  | .int | .u64 | .ptr => v.word.low 64 = 0
  | .float => v.word.low 31 = 0
  | .double => v.word.low 63 = 0
  | .reg | .top => False

theorem Word.isZero_single (w : Word) : Binary.single.isZero w.single ↔ w.low 31 = 0 := by
  rw [Binary.isZero_iff (by decide)]
  change w.toNat % 2 ^ 32 % 2 ^ 31 = 0 ↔ w.toNat % 2 ^ 31 = 0
  omega

theorem Word.isZero_double (w : Word) : Binary.double.isZero w.double ↔ w.low 63 = 0 :=
  Binary.isZero_iff (by decide) w.toNat

namespace Value

variable {v : Value}

theorem denotesZero_of_isZero (value : v.tag ≠ .reg ∧ v.tag ≠ .top) (h : v.word.isZero) :
    v.DenotesZero := by
  rw [Word.isZero_iff] at h
  unfold DenotesZero Word.low
  cases known : v.tag <;> simp_all

theorem isZero_toDouble (h : v.DenotesZero) : Binary.double.isZero v.toDouble := by
  have zero : Binary.double.isZero (Binary.double.ofInt 0) := Binary.isZero_ofInt_zero (by decide)
  have := v.word.toNat_lt
  unfold DenotesZero at h
  unfold toDouble toUnsigned
  cases known : v.tag
  all_goals
    rw [known] at h
    dsimp only at h ⊢
  case float => exact Binary.isZero_convert (by decide) ((Word.isZero_single _).2 h)
  case double => exact (Word.isZero_double _).2 h
  case int =>
    have : v.word.toInt = 0 := by
      unfold Word.low at h
      unfold Word.toInt
      omega
    rwa [this]
  case u64 | ptr =>
    have : v.word.toNat = 0 := by
      unfold Word.low at h
      omega
    rwa [this]
  case u8 | u16 | u32 | char => rwa [h]

theorem isZero_toSingle (h : v.DenotesZero) : Binary.single.isZero v.toSingle :=
  Binary.isZero_convert (by decide) (isZero_toDouble h)

end Value

theorem Numeric.Binary.isFinite_ofNat {f : Binary} (few : f.exponentBits + f.fractionBits < 64)
    (pattern : Nat) : f.isFinite (Word.ofNat pattern).toNat = f.isFinite pattern := by
  unfold isFinite
  rw [Word.toNat_ofNat, decode_mod few]

/-- A zero behind a word that is not zero divides. -/
theorem Arith.exists_quotient {a b : Value} {format : Binary} (op : Op)
    (float : a.tag.format? = some format) (zero : b.DenotesZero) (hidden : b.word.isZero = false) :
    ∃ v, Arith.div.apply op a b = .ok v ∧ v.tag = a.tag ∧
      format.isFinite v.word.toNat = false := by
  unfold Arith.apply
  rw [if_neg (by simp [hidden])]
  obtain ⟨known, rfl⟩ | ⟨known, rfl⟩ := Tag.cases_of_format float
  · rw [known]
    refine ⟨_, rfl, rfl, ?_⟩
    rw [Arith.floating, Binary.isFinite_ofNat (by decide)]
    exact Binary.isFinite_div (by decide) (Value.isZero_toSingle zero)
  · rw [known]
    refine ⟨_, rfl, rfl, ?_⟩
    rw [Arith.floating, Binary.isFinite_ofNat (by decide)]
    exact Binary.isFinite_div (by decide) (Value.isZero_toDouble zero)

namespace Machine

/-- The guard of `div` is about the word, whatever the tag. -/
theorem answers_float_div_error_iff {a b : Value} {format : Binary}
    (float : a.tag.format? = some format) :
    Answers .div a b (.error .divideByZero) ↔ b.word.isZero := by
  refine (answers_arith_iff .div).trans ?_
  unfold Arith.apply
  by_cases zero : b.word.isZero
  · rw [if_pos ⟨rfl, zero⟩]
    exact iff_of_true rfl zero
  · rw [if_neg (by simp [zero])]
    refine iff_of_false ?_ zero
    obtain ⟨known, -⟩ | ⟨known, -⟩ := Tag.cases_of_format float
    all_goals
      rw [known]
      nofun

/-- The guard of `div_f` is about the number. -/
theorem answers_divF_error_iff {a b : Value} :
    Answers .divF a b (.error .divideByZero) ↔ b.word.low 31 = 0 := by
  refine (answers_floatArith_iff .div).trans ?_
  rw [← Word.isZero_single]
  unfold FloatArith.apply
  dsimp only
  split
  · exact iff_of_true rfl ‹_›
  · exact iff_of_false nofun ‹_›

/-- **Divisors of floats that are zero.** Let the left operand have the tag of a float or of a
double and the right one a tag of values. Then `div` fails with `divideByZero` if and only if the
word of the right operand is zero. Such an operand stands for zero, but one that stands for zero
behind another word divides, and the quotient is an infinity or a NaN. On a right operand that is
a float, `div_f` fails with the fault if and only if that stands for zero, of either sign. -/
theorem answers_float_div {a b : Value} {format : Binary} (float : a.tag.format? = some format)
    (value : b.tag ≠ .reg ∧ b.tag ≠ .top) :
    (Answers .div a b (.error .divideByZero) ↔ b.word.isZero) ∧
    (b.word.isZero → b.DenotesZero) ∧
    (b.DenotesZero → b.word.isZero = false →
      ∃ v, Answers .div a b (.ok v) ∧ v.tag = a.tag ∧ format.isFinite v.word.toNat = false) ∧
    (b.tag = .float → (Answers .divF a b (.error .divideByZero) ↔ b.DenotesZero)) := by
  refine ⟨answers_float_div_error_iff float, Value.denotesZero_of_isZero value, ?_, ?_⟩
  · intro zero hidden
    obtain ⟨v, result, rest⟩ := Arith.exists_quotient .div float zero hidden
    exact ⟨v, (answers_arith_iff .div).2 result, rest⟩
  · intro tag
    rw [answers_divF_error_iff, Value.DenotesZero, tag]

/-- One by a negative zero is an infinity. -/
theorem answers_float_div_negative_zero :
    ∃ v, Answers .div (.float 0x3f800000) (.float 0x80000000) (.ok v) ∧ v.tag = .float ∧
      Binary.single.isFinite v.word.toNat = false := by
  have float : (Value.float 0x3f800000).tag.format? = some .single := rfl
  have value : (Value.float 0x80000000).tag ≠ .reg ∧ (Value.float 0x80000000).tag ≠ .top := by
    decide
  have zero : (Value.float 0x80000000).DenotesZero := by
    change _ = _
    decide
  exact (answers_float_div float value).2.2.1 zero (by decide)

/-- A divisor that is zero is not always refused, and `div` is not `div_f`: one by a negative
zero, and one by a byte that is zero below bits left over. -/
theorem div_by_zero_not_refused :
    ((Value.float 0x80000000).DenotesZero ∧
      ¬ Answers .div (.float 0x3f800000) (.float 0x80000000) (.error .divideByZero) ∧
      Answers .divF (.float 0x3f800000) (.float 0x80000000) (.error .divideByZero)) ∧
    (⟨.ofNat 256, .u8⟩ : Value).DenotesZero ∧
      ¬ Answers .div (.float 0x3f800000) ⟨.ofNat 256, .u8⟩ (.error .divideByZero) := by
  have float : (Value.float 0x3f800000).tag.format? = some .single := rfl
  refine ⟨⟨?_, ?_, ?_⟩, ?_, ?_⟩
  · change _ = _
    decide
  · rw [answers_float_div_error_iff float]
    decide
  · rw [answers_divF_error_iff]
    decide
  · change _ = _
    decide
  · rw [answers_float_div_error_iff float]
    decide

end Machine

end StackLang
