import StackLang.Numeric.Binary

/-!
# Patterns that stand for no rounded number

The zeros, the infinities and the NaNs of a format. `decode_withSign` reads a pattern back that is
put together from its fields, for every format; what the operations make of these special operands
then needs no rounding. Both zeros count as zero, and a quotient by either is not finite.
-/

namespace StackLang.Numeric.Binary

variable {f g : Binary}

theorem hidden_pos (f : Binary) : 0 < f.hidden := Nat.two_pow_pos _

theorem signBit_eq (f : Binary) : f.signBit = f.hidden * 2 ^ f.exponentBits := by
  unfold signBit hidden
  rw [Nat.pow_add, Nat.mul_comm]

theorem signBit_pos (f : Binary) : 0 < f.signBit := Nat.two_pow_pos _

/-! ## The fields of a pattern -/

theorem withSign_eq (f : Binary) (negative : Bool) (magnitude : Nat) :
    f.withSign negative magnitude = f.signBit * negative.toNat + magnitude := by
  cases negative <;> simp [withSign]

/-- A pattern stands for what its fields say. -/
theorem decode_withSign (negative : Bool) {biased fraction : Nat}
    (exponent : biased < 2 ^ f.exponentBits) (below : fraction < f.hidden) :
    f.decode (f.withSign negative (f.hidden * biased + fraction)) =
      if biased = 2 ^ f.exponentBits - 1 then
        if fraction = 0 then .infinite negative else .nan negative fraction
      else if biased = 0 then .finite negative fraction f.leastExponent
      else .finite negative (f.hidden + fraction) (f.leastExponent + (biased - 1)) := by
  have magnitude : f.hidden * biased + fraction < f.signBit := by
    have := Nat.mul_le_mul_left f.hidden (Nat.succ_le_of_lt exponent)
    rw [Nat.mul_succ, ← signBit_eq] at this
    omega
  have sign : f.withSign negative (f.hidden * biased + fraction) / f.signBit % 2 =
      negative.toNat := by
    rw [withSign_eq, Nat.mul_add_div f.signBit_pos, Nat.div_eq_of_lt magnitude]
    cases negative <;> rfl
  have fields : f.withSign negative (f.hidden * biased + fraction) =
      f.hidden * (2 ^ f.exponentBits * negative.toNat + biased) + fraction := by
    rw [withSign_eq, signBit_eq, Nat.mul_add, Nat.mul_assoc, Nat.add_assoc]
  have field : f.withSign negative (f.hidden * biased + fraction) / f.hidden % 2 ^ f.exponentBits =
      biased := by
    rw [fields, Nat.mul_add_div f.hidden_pos, Nat.div_eq_of_lt below, Nat.add_zero,
      Nat.mul_add_mod, Nat.mod_eq_of_lt exponent]
  have low : f.withSign negative (f.hidden * biased + fraction) % f.hidden = fraction := by
    rw [fields, Nat.mul_add_mod, Nat.mod_eq_of_lt below]
  unfold decode
  rw [sign, field, low]
  cases negative <;> rfl

theorem field_mod {start length width : Nat} (within : start + length ≤ width) (bits : Nat) :
    bits % 2 ^ width / 2 ^ start % 2 ^ length = bits / 2 ^ start % 2 ^ length := by
  have above : 2 ^ length ∣ 2 ^ (width - start) := Nat.pow_dvd_pow 2 (by omega)
  rw [← Nat.add_sub_cancel' (Nat.le_of_add_right_le within), Nat.pow_add,
    Nat.mod_mul_right_div_self, Nat.mod_mod_of_dvd _ above]

/-- Bits above the sign are not read. -/
theorem decode_mod {width : Nat} (within : f.exponentBits + f.fractionBits + 1 ≤ width)
    (bits : Nat) : f.decode (bits % 2 ^ width) = f.decode bits := by
  have sign : bits % 2 ^ width / f.signBit % 2 = bits / f.signBit % 2 :=
    (field_mod within bits :)
  have field : bits % 2 ^ width / f.hidden % 2 ^ f.exponentBits =
      bits / f.hidden % 2 ^ f.exponentBits := field_mod (by omega) bits
  have low : bits % 2 ^ width % f.hidden = bits % f.hidden :=
    Nat.mod_mod_of_dvd _ (Nat.pow_dvd_pow 2 (by omega))
  unfold decode
  rw [sign, field, low]

theorem decode_zero (hasExponent : 0 < f.exponentBits) (negative : Bool) :
    f.decode (f.withSign negative 0) = .finite negative 0 f.leastExponent := by
  have two : 2 ≤ 2 ^ f.exponentBits := Nat.pow_le_pow_right (by decide : 0 < 2) hasExponent
  have read := decode_withSign negative (Nat.two_pow_pos f.exponentBits) f.hidden_pos
  rw [if_neg (by omega), if_pos rfl] at read
  exact read

/-- The patterns above infinity are the NaNs. -/
theorem decode_infinity_add (negative : Bool) {payload : Nat} (below : payload < f.hidden) :
    f.decode (f.withSign negative (f.infinity + payload)) =
      if payload = 0 then .infinite negative else .nan negative payload := by
  have read := decode_withSign negative (Nat.sub_lt (Nat.two_pow_pos f.exponentBits) Nat.one_pos)
    below
  rw [if_pos rfl, Nat.mul_comm f.hidden] at read
  exact read

/-! ## Zeros -/

theorem isZero_iff (hasExponent : 0 < f.exponentBits) (bits : Nat) :
    f.isZero bits ↔ bits % f.signBit = 0 := by
  have two : 2 ≤ 2 ^ f.exponentBits := Nat.pow_le_pow_right (by decide : 0 < 2) hasExponent
  have hidden := f.hidden_pos
  -- Below the sign there are the fraction and, in multiples of the leading one, the exponent.
  rw [signBit_eq, Nat.mod_mul, Nat.add_eq_zero_iff, Nat.mul_eq_zero]
  unfold isZero decode
  dsimp only
  by_cases exponent : bits / f.hidden % 2 ^ f.exponentBits = 0
  · rw [exponent, if_neg (by omega), if_pos rfl]
    simp
  · refine iff_of_false ?_ (by omega)
    rw [if_neg exponent]
    by_cases top : bits / f.hidden % 2 ^ f.exponentBits = 2 ^ f.exponentBits - 1
    · rw [if_pos top]
      by_cases fraction : bits % f.hidden = 0 <;> simp [fraction]
    · rw [if_neg top]
      simp only [beq_iff_eq]
      omega

theorem exists_of_isZero {bits : Nat} (h : f.isZero bits) :
    ∃ negative exponent, f.decode bits = .finite negative 0 exponent := by
  unfold isZero at h
  cases read : f.decode bits with
  | nan | infinite =>
    rw [read] at h
    cases h
  | finite negative mantissa exponent =>
    rw [read] at h
    exact ⟨negative, exponent, by rw [beq_iff_eq.1 h]⟩

theorem isZero_withSign_zero (hasExponent : 0 < f.exponentBits) (negative : Bool) :
    f.isZero (f.withSign negative 0) := by
  unfold isZero
  rw [decode_zero hasExponent]
  rfl

theorem ofScaled_zero (f : Binary) (negative : Bool) (exponent : Int) :
    f.ofScaled negative 0 exponent = f.withSign negative 0 := by
  unfold ofScaled scaleByTwo
  by_cases sign : 0 ≤ exponent <;> simp [sign, nearest]

theorem isZero_ofInt_zero (hasExponent : 0 < f.exponentBits) : f.isZero (f.ofInt 0) :=
  isZero_withSign_zero hasExponent false

/-- A zero is a zero in every format. -/
theorem isZero_convert {bits : Nat} (hasExponent : 0 < g.exponentBits) (h : f.isZero bits) :
    g.isZero (f.convert g bits) := by
  obtain ⟨negative, exponent, read⟩ := exists_of_isZero h
  unfold convert
  rw [read]
  dsimp only
  rw [ofScaled_zero]
  exact isZero_withSign_zero hasExponent negative

/-! ## Quotients by zero -/

/-- Whether a pattern is neither an infinity nor a NaN. -/
def isFinite (f : Binary) (bits : Nat) : Bool :=
  match f.decode bits with
  | .finite .. => true
  | _ => false

theorem isFinite_infinity (negative : Bool) :
    f.isFinite (f.withSign negative f.infinity) = false := by
  unfold isFinite
  rw [← Nat.add_zero f.infinity, decode_infinity_add negative f.hidden_pos]
  rfl

theorem isFinite_quietNan (hasFraction : 0 < f.fractionBits) (negative : Bool) (payload : Nat) :
    f.isFinite (f.quietNan negative payload) = false := by
  have half : f.hidden / 2 = 2 ^ (f.fractionBits - 1) := by
    unfold hidden
    rw [← Nat.pow_div hasFraction (by decide), Nat.pow_one]
  have whole : f.hidden = 2 ^ (f.fractionBits - 1) * 2 := by
    rw [← Nat.pow_succ, Nat.succ_eq_add_one, Nat.sub_add_cancel hasFraction]
    rfl
  have positive := Nat.two_pow_pos (f.fractionBits - 1)
  have low := Nat.mod_lt payload positive
  unfold isFinite quietNan
  rw [half, Nat.add_assoc, decode_infinity_add negative (by omega), if_neg (by omega)]

/-- A quotient by a zero of either sign is an infinity or a NaN. -/
theorem isFinite_div {a b : Nat} (hasFraction : 0 < f.fractionBits) (h : f.isZero b) :
    f.isFinite (f.div a b) = false := by
  obtain ⟨sign, exponent, zero⟩ := exists_of_isZero h
  unfold div
  rw [zero]
  cases f.decode a with
  | nan negative payload => exact isFinite_quietNan hasFraction negative payload
  | infinite negative => exact isFinite_infinity _
  | finite negative mantissa e =>
    dsimp only
    rw [if_pos rfl]
    split
    · exact isFinite_quietNan hasFraction true 0
    · exact isFinite_infinity _

end StackLang.Numeric.Binary
