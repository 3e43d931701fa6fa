import StackLang.Machine.Fault
import StackLang.Numeric.Binary

/-!
# Typed arithmetic

The tag of the left operand picks the width that an operation works in, and each operand is first
converted from its own tag. Integer results are taken modulo the width; `char` works as `u8` and
`ptr` as `u64`. Comparisons give the integers one and zero.
-/

namespace StackLang

open Bytecode Numeric

/-- A comparison of two numbers. -/
inductive Comparison where
  | equal | notEqual | greater | less | greaterEqual | lessEqual
deriving DecidableEq, Repr

/-- Whether a comparison holds of two numbers in the given order; `none` means that one of them is
no number, and then only `notEqual` holds. -/
def Comparison.holds : Comparison → Option Ordering → Bool
  | .equal, o => o == some .eq
  | .notEqual, o => o != some .eq
  | .greater, o => o == some .gt
  | .less, o => o == some .lt
  | .greaterEqual, o => o == some .gt || o == some .eq
  | .lessEqual, o => o == some .lt || o == some .eq

/-- What a typed operation does with its operands. -/
inductive Arith where
  | add | sub | mul | div
  | compare (c : Comparison)
deriving DecidableEq, Repr

namespace Value

/-- The value as a natural below `2 ^ 64`; floats lose their fraction and are clamped. -/
def toUnsigned (v : Value) : Nat :=
  match v.tag with
  | .u8 | .char => v.word.low 8
  | .u16 => v.word.low 16
  | .u32 => v.word.low 32
  | .float => (Binary.single.toInt 0 (2 ^ 64 - 1) v.word.single).toNat
  | .double => (Binary.double.toInt 0 (2 ^ 64 - 1) v.word.double).toNat
  | .int | .u64 | .ptr | .reg | .top => v.word.toNat

/-- The value as a signed integer of 64 bits; floats lose their fraction and are clamped. -/
def toSigned (v : Value) : Int :=
  match v.tag with
  | .float => Binary.single.toInt (-2 ^ 63) (2 ^ 63 - 1) v.word.single
  | .double => Binary.double.toInt (-2 ^ 63) (2 ^ 63 - 1) v.word.double
  | .int => v.word.toInt
  | _ => (Word.ofNat v.toUnsigned).toInt

/-- The value as a pattern of the double format. -/
def toDouble (v : Value) : Nat :=
  match v.tag with
  | .float => Binary.single.convert .double v.word.single
  | .double => v.word.double
  | .int => Binary.double.ofInt v.word.toInt
  | _ => Binary.double.ofInt v.toUnsigned

/-- The value as a pattern of the single format, by way of the double one. -/
def toSingle (v : Value) : Nat := Binary.double.convert .single v.toDouble

end Value

namespace Arith

/-- The operation on naturals, with the result in the low `width` bits under `tag`. -/
def unsigned (f : Arith) (width : Nat) (tag : Tag) (a b : Nat) : Except Fault Value :=
  let inWidth (n : Int) : Value := ⟨.ofInt (n % 2 ^ width), tag⟩
  match f with
  | .add => .ok (inWidth (a + b))
  | .sub => .ok (inWidth (a - b))
  | .mul => .ok (inWidth (a * b))
  | .div => if b = 0 then .error .divideByZero else .ok (inWidth (a / b : Nat))
  | .compare c => .ok (.truth (c.holds (some (Ord.compare a b))))

/-- The operation on signed integers, with the result modulo `2 ^ 64`. -/
def signed (f : Arith) (a b : Int) : Except Fault Value :=
  match f with
  | .add => .ok (.int (a + b))
  | .sub => .ok (.int (a - b))
  | .mul => .ok (.int (a * b))
  | .div => if b = 0 then .error .divideByZero else .ok (.int (a.tdiv b))
  | .compare c => .ok (.truth (c.holds (some (Ord.compare a b))))

/-- The operation on numbers of a format, with the result under `tag`. -/
def floating (f : Arith) (format : Binary) (tag : Tag) (a b : Nat) : Value :=
  match f with
  | .add => ⟨.ofNat (format.add a b), tag⟩
  | .sub => ⟨.ofNat (format.sub a b), tag⟩
  | .mul => ⟨.ofNat (format.mul a b), tag⟩
  | .div => ⟨.ofNat (format.div a b), tag⟩
  | .compare c => .truth (c.holds (format.compare? a b))

/-- The operation `op` on two values, the deeper one first. A divisor whose word is zero is
refused whatever its tag. -/
def apply (f : Arith) (op : Op) (a b : Value) : Except Fault Value :=
  if f = .div ∧ b.word.isZero then .error .divideByZero
  else
    match a.tag with
    | .ptr | .u64 => f.unsigned 64 .u64 a.toUnsigned b.toUnsigned
    | .char | .u8 => f.unsigned 8 .u8 a.toUnsigned b.toUnsigned
    | .u16 => f.unsigned 16 .u16 a.toUnsigned b.toUnsigned
    | .u32 => f.unsigned 32 .u32 a.toUnsigned b.toUnsigned
    | .int => f.signed a.toSigned b.toSigned
    | .float => .ok (f.floating .single .float a.toSingle b.toSingle)
    | .double => .ok (f.floating .double .double a.toDouble b.toDouble)
    | .reg | .top => .error (.unexpectedType op none a.tag)

end Arith

/-- The operations on the signed integers of two words, whatever their tags. -/
inductive Logic where
  | remainder | both | either
deriving DecidableEq, Repr

/-- The operation on two values, the deeper one first; truth is being different from zero. -/
def Logic.apply (f : Logic) (a b : Value) : Except Fault Value :=
  let m := a.word.toInt
  let n := b.word.toInt
  match f with
  | .remainder => if n = 0 then .error .divideByZero else .ok (.int (m.tmod n))
  | .both => .ok (.truth (m != 0 && n != 0))
  | .either => .ok (.truth (m != 0 || n != 0))

/-- The operations on the single format patterns of two words, whatever their tags. -/
inductive FloatArith where
  | add | sub | mul | div | remainder
deriving DecidableEq, Repr

/-- The operation on two values, the deeper one first; a zero of either sign divides nothing. -/
def FloatArith.apply (f : FloatArith) (a b : Value) : Except Fault Value :=
  let x := a.word.single
  let y := b.word.single
  let format := Binary.single
  match f with
  | .add => .ok (.float (format.add x y))
  | .sub => .ok (.float (format.sub x y))
  | .mul => .ok (.float (format.mul x y))
  | .div => if format.isZero y then .error .divideByZero else .ok (.float (format.div x y))
  | .remainder => if format.isZero y then .error .divideByZero else .ok (.float (format.rem x y))

end StackLang
