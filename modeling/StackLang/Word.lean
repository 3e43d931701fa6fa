import StackLang.Numeric.Binary

/-!
# Tagged words

A `Word` is an untagged 64-bit scalar with several views: a two's complement integer, naturals of
four widths, the bit patterns of both float formats, a byte and an address. Narrow views read the
low bits. A `Value` is a word with the `Tag` that says which view is meant; nothing forces the
bits above that view to be zero.
-/

namespace StackLang

open Numeric

/-- An untagged 64-bit scalar. -/
structure Word where
  bits : UInt64
deriving DecidableEq, Repr, Inhabited

namespace Word

/-- The word with the given natural modulo `2 ^ 64`. -/
def ofNat (n : Nat) : Word := ⟨UInt64.ofNat n⟩

/-- The word as a natural. -/
def toNat (w : Word) : Nat := w.bits.toNat

/-- The two's complement word of an integer modulo `2 ^ 64`. -/
def ofInt (n : Int) : Word := ofNat (n % 2 ^ 64).toNat

/-- The word as a two's complement integer. -/
def toInt (w : Word) : Int := if w.toNat < 2 ^ 63 then w.toNat else w.toNat - 2 ^ 64

/-- The low `width` bits as a natural. -/
def low (width : Nat) (w : Word) : Nat := w.toNat % 2 ^ width

/-- The pattern of the single format in the low half. -/
def single (w : Word) : Nat := w.low 32

/-- The pattern of the double format. -/
def double (w : Word) : Nat := w.toNat

/-- The lowest byte. -/
def byte (w : Word) : UInt8 := UInt8.ofNat w.toNat

/-- The eight bytes, lowest first. -/
def toBytes (w : Word) : List UInt8 :=
  (List.range 8).map fun k => UInt8.ofNat (w.toNat / 256 ^ k)

/-- The word with the given bytes, lowest first and the missing ones zero. -/
def ofBytes (bytes : List UInt8) : Word :=
  ofNat (bytes.foldr (fun b n => b.toNat + 256 * n) 0)

/-- Whether all bits are zero. -/
def isZero (w : Word) : Bool := w.toNat == 0

@[simp] theorem toNat_ofNat (n : Nat) : (ofNat n).toNat = n % 2 ^ 64 := by
  simp [ofNat, toNat]

@[simp] theorem ofNat_toNat (w : Word) : ofNat w.toNat = w := by
  simp [ofNat, toNat]

theorem isZero_iff {w : Word} : w.isZero ↔ w.toNat = 0 := beq_iff_eq

theorem toNat_lt (w : Word) : w.toNat < 2 ^ 64 := w.bits.toNat_lt

theorem toNat_inj {v w : Word} : v.toNat = w.toNat ↔ v = w := by
  constructor
  · intro h
    rw [← ofNat_toNat v, ← ofNat_toNat w, h]
  · rintro rfl
    rfl

theorem toInt_ofInt {n : Int} (lo : -2 ^ 63 ≤ n) (hi : n < 2 ^ 63) : (ofInt n).toInt = n := by
  unfold toInt ofInt
  rw [toNat_ofNat]
  split <;> omega

theorem toInt_ofNat {n : Nat} (h : n < 2 ^ 63) : (ofNat n).toInt = n := by
  unfold toInt
  rw [toNat_ofNat]
  split <;> omega

theorem ofInt_toInt (w : Word) : ofInt w.toInt = w := by
  rw [← toNat_inj]
  have := w.toNat_lt
  unfold ofInt toInt
  rw [toNat_ofNat]
  split <;> omega

end Word

/-- What the bits of a word mean. `reg` and `top` mark operands that are looked up. -/
inductive Tag where
  | int | u8 | u16 | u32 | u64 | float | double | char | ptr | reg | top
deriving DecidableEq, Repr, Inhabited

namespace Tag

/-- Every tag, at the position of its code. -/
def all : List Tag := [.int, .u8, .u16, .u32, .u64, .float, .double, .char, .ptr, .reg, .top]

/-- The number that stands for the tag in a program file and in memory. -/
def code (t : Tag) : Nat := t.ctorIdx

/-- The tag with a code. -/
def ofCode? (n : Nat) : Option Tag := all[n]?

/-- The tag whose code is an integer. -/
def ofInt? (n : Int) : Option Tag := if 0 ≤ n then ofCode? n.toNat else none

/-- The word that names the tag. -/
def name : Tag → String
  | .int => "int"
  | .u8 => "u8"
  | .u16 => "u16"
  | .u32 => "u32"
  | .u64 => "u64"
  | .float => "float"
  | .double => "double"
  | .char => "char"
  | .ptr => "ptr"
  | .reg => "reg"
  | .top => "top"

/-- The tag that a word names. -/
def ofName? (word : String) : Option Tag := all.find? fun t => t.name == word

theorem ofCode?_code (t : Tag) : ofCode? t.code = some t := by
  cases t <;> rfl

theorem code_lt (t : Tag) : t.code < 11 := by
  cases t <;> decide

theorem ofName?_name (t : Tag) : ofName? t.name = some t := by
  cases t <;> decide

end Tag

/-- A tagged word. -/
structure Value where
  word : Word
  tag : Tag
deriving DecidableEq, Repr, Inhabited

namespace Value

/-- A signed integer. -/
def int (n : Int) : Value := ⟨.ofInt n, .int⟩

/-- A number of the single format, given by its pattern. -/
def float (pattern : Nat) : Value := ⟨.ofNat pattern, .float⟩

/-- A number of the double format, given by its pattern. -/
def double (pattern : Nat) : Value := ⟨.ofNat pattern, .double⟩

/-- A character. -/
def char (b : UInt8) : Value := ⟨.ofNat b.toNat, .char⟩

/-- An address. -/
def ptr (address : Nat) : Value := ⟨.ofNat address, .ptr⟩

/-- The integers one and zero for the two truth values. -/
def truth (b : Bool) : Value := int (if b then 1 else 0)

end Value

end StackLang
