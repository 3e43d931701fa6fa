import StackLang.Word

/-!
# The bytes of a word

A word and its eight bytes, lowest first, determine each other.
-/

namespace StackLang.Word

@[simp] theorem length_toBytes (w : Word) : w.toBytes.length = 8 := by
  simp [toBytes]

/-- A row of bytes as a natural, lowest byte first. -/
def littleEndian (bytes : List UInt8) : Nat := bytes.foldr (fun b n => b.toNat + 256 * n) 0

theorem littleEndian_cons (b : UInt8) (rest : List UInt8) :
    littleEndian (b :: rest) = b.toNat + 256 * littleEndian rest := rfl

theorem ofBytes_eq (bytes : List UInt8) : ofBytes bytes = ofNat (littleEndian bytes) := rfl

theorem littleEndian_lt (bytes : List UInt8) : littleEndian bytes < 256 ^ bytes.length := by
  induction bytes with
  | nil => simp [littleEndian]
  | cons b rest ih =>
    have := b.toNat_lt
    rw [littleEndian_cons, List.length_cons, Nat.pow_succ]
    omega

/-- The bytes of a natural are the digits of its little endian form. -/
theorem digits_littleEndian (bytes : List UInt8) :
    (List.range bytes.length).map (fun k => UInt8.ofNat (littleEndian bytes / 256 ^ k)) =
      bytes := by
  induction bytes with
  | nil => rfl
  | cons b rest ih =>
    have low : UInt8.ofNat (b.toNat + 256 * littleEndian rest) = b := by
      apply UInt8.toNat_inj.1
      have := b.toNat_lt
      simp only [UInt8.toNat_ofNat']
      omega
    have high : ∀ k, (b.toNat + 256 * littleEndian rest) / 256 ^ (k + 1) =
        littleEndian rest / 256 ^ k := by
      intro k
      have := b.toNat_lt
      rw [Nat.pow_succ', ← Nat.div_div_eq_div_mul]
      congr 1
      omega
    rw [List.length_cons, List.range_succ_eq_map, List.map_cons, List.map_map, littleEndian_cons]
    simp only [Function.comp_def, high, Nat.succ_eq_add_one, Nat.pow_zero, Nat.div_one, low]
    rw [ih]

theorem toBytes_ofBytes {bytes : List UInt8} (h : bytes.length = 8) :
    (ofBytes bytes).toBytes = bytes := by
  have bound := littleEndian_lt bytes
  rw [h] at bound
  have digits := digits_littleEndian bytes
  rw [h] at digits
  have value : (ofBytes bytes).toNat = littleEndian bytes := by
    rw [ofBytes_eq, toNat_ofNat]
    exact Nat.mod_eq_of_lt bound
  rw [toBytes, value, digits]

theorem littleEndian_append_zeros (bytes : List UInt8) (count : Nat) :
    littleEndian (bytes ++ List.replicate count 0) = littleEndian bytes := by
  induction bytes with
  | nil =>
    rw [List.nil_append]
    induction count with
    | zero => rfl
    | succ count ih =>
      rw [List.replicate_succ, littleEndian_cons, ih]
      rfl
  | cons b rest ih => rw [List.cons_append, littleEndian_cons, ih, littleEndian_cons]

/-- The bytes that are missing are zero. -/
theorem toBytes_ofBytes_of_le {bytes : List UInt8} (h : bytes.length ≤ 8) :
    (ofBytes bytes).toBytes = bytes ++ List.replicate (8 - bytes.length) 0 := by
  have whole : (bytes ++ List.replicate (8 - bytes.length) 0).length = 8 := by
    rw [List.length_append, List.length_replicate]
    omega
  rw [← toBytes_ofBytes whole, ofBytes_eq, ofBytes_eq, littleEndian_append_zeros]

theorem ofBytes_toBytes (w : Word) : ofBytes w.toBytes = w := by
  have bound := w.toNat_lt
  rw [← toNat_inj, ofBytes_eq, toNat_ofNat]
  simp only [toBytes, littleEndian, List.range_succ, List.range_zero, List.nil_append,
    List.cons_append, List.map_cons, List.map_nil, List.foldr_cons, List.foldr_nil,
    UInt8.toNat_ofNat']
  omega

end StackLang.Word
