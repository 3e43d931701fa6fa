import StackLang.Numeric.Pow

/-!
# Binary floating point on bit patterns

A `Binary` is an interchange format: a sign bit, a biased exponent and a fraction. Numbers are
held as their bit patterns (`Nat`), decoded into a `Datum`, computed exactly on naturals and
integers, and rounded once, to the nearest pattern with ties to the even one. So every operation
here is a closed term that the kernel can evaluate.

Two rules fix the patterns of invalid results: an operation that has no value (`∞ - ∞`, `0 / 0`)
gives `Binary.invalid`, and an operation on a quiet or signalling NaN gives its first NaN operand,
quieted.
-/

namespace StackLang.Numeric

/-- The quotient `num / den` rounded to the nearest natural, a tie going to the even neighbour. -/
def roundDiv (num den : Nat) : Nat :=
  let q := num / den
  let r := num % den
  if 2 * r < den then q
  else if den < 2 * r then q + 1
  else q + q % 2

/-- The fraction `num / den` times `2 ^ k`, again as a fraction. -/
def scaleByTwo (num den : Nat) (k : Int) : Nat × Nat :=
  if 0 ≤ k then (num * 2 ^ k.toNat, den) else (num, den * 2 ^ (-k).toNat)

/-- A binary interchange format with the given field widths. -/
structure Binary where
  exponentBits : Nat
  fractionBits : Nat
deriving DecidableEq, Repr

namespace Binary

/-- The 32-bit format. -/
def single : Binary := ⟨8, 23⟩

/-- The 64-bit format. -/
def double : Binary := ⟨11, 52⟩

/-- A decoded bit pattern; `finite` stands for `± mantissa * 2 ^ exponent`. -/
inductive Datum where
  | nan (negative : Bool) (payload : Nat)
  | infinite (negative : Bool)
  | finite (negative : Bool) (mantissa : Nat) (exponent : Int)
deriving DecidableEq, Repr

variable (f : Binary)

/-- The leading one of a normal mantissa. -/
def hidden : Nat := 2 ^ f.fractionBits

/-- The pattern of positive infinity, above every finite magnitude. -/
def infinity : Nat := (2 ^ f.exponentBits - 1) * f.hidden

/-- The sign bit. -/
def signBit : Nat := 2 ^ (f.exponentBits + f.fractionBits)

/-- The exponent of the least positive number. -/
def leastExponent : Int := 2 - 2 ^ (f.exponentBits - 1) - f.fractionBits

/-- A magnitude with its sign. -/
def withSign (negative : Bool) (magnitude : Nat) : Nat :=
  if negative then f.signBit + magnitude else magnitude

/-- The NaN of an operation without a value. -/
def invalid : Nat := f.withSign true (f.infinity + f.hidden / 2)

/-- A NaN with the given payload, quieted. -/
def quietNan (negative : Bool) (payload : Nat) : Nat :=
  f.withSign negative (f.infinity + f.hidden / 2 + payload % (f.hidden / 2))

/-- What a bit pattern stands for. -/
def decode (bits : Nat) : Datum :=
  let negative := bits / f.signBit % 2 == 1
  let biased := bits / f.hidden % 2 ^ f.exponentBits
  let fraction := bits % f.hidden
  if biased = 2 ^ f.exponentBits - 1 then
    if fraction = 0 then .infinite negative else .nan negative fraction
  else if biased = 0 then .finite negative fraction f.leastExponent
  else .finite negative (f.hidden + fraction) (f.leastExponent + (biased - 1))

/-- The nearest pattern to the positive fraction `num / den`. The exponent is the one that gives
the mantissa its full width, or the least one; a mantissa that rounds up to the next power of two
carries into the exponent field by the addition. -/
def nearest (num den : Nat) : Nat :=
  if num = 0 then 0 else
  let guess : Int := num.log2 - den.log2
  let (n, d) := scaleByTwo num den (-guess)
  let top := if d ≤ n then guess else guess - 1
  let exponent := max (top - f.fractionBits) f.leastExponent
  let (n, d) := scaleByTwo num den (-exponent)
  min f.infinity ((exponent - f.leastExponent).toNat * f.hidden + roundDiv n d)

/-- The pattern nearest to `± mantissa * 2 ^ exponent`. -/
def ofScaled (negative : Bool) (mantissa : Nat) (exponent : Int) : Nat :=
  let (n, d) := scaleByTwo mantissa 1 exponent
  f.withSign negative (f.nearest n d)

/-- The pattern nearest to an integer. -/
def ofInt (n : Int) : Nat :=
  f.withSign (n < 0) (f.nearest n.natAbs 1)

/-- The magnitude `mantissa * 2 ^ exponent` counted in units of `2 ^ unit`, with its sign. -/
def inUnits (negative : Bool) (mantissa : Nat) (exponent unit : Int) : Int :=
  let n : Int := mantissa * 2 ^ (exponent - unit).toNat
  if negative then -n else n

/-- The sum; an exact zero is positive unless both operands are negative. -/
def add (a b : Nat) : Nat :=
  match f.decode a, f.decode b with
  | .nan s p, _ => f.quietNan s p
  | _, .nan s p => f.quietNan s p
  | .infinite s, .infinite t => if s = t then f.withSign s f.infinity else f.invalid
  | .infinite s, _ => f.withSign s f.infinity
  | _, .infinite t => f.withSign t f.infinity
  | .finite s m e, .finite t n k =>
    let unit := min e k
    let sum := inUnits s m e unit + inUnits t n k unit
    if sum = 0 then f.withSign (s && t) 0
    else f.ofScaled (sum < 0) sum.natAbs unit

/-- The pattern with the opposite sign. -/
def neg (a : Nat) : Nat :=
  if a / f.signBit % 2 = 1 then a - f.signBit else a + f.signBit

/-- The difference; a NaN operand keeps its own sign. -/
def sub (a b : Nat) : Nat :=
  match f.decode b with
  | .nan .. => f.add a b
  | _ => f.add a (f.neg b)

/-- The product. -/
def mul (a b : Nat) : Nat :=
  match f.decode a, f.decode b with
  | .nan s p, _ => f.quietNan s p
  | _, .nan s p => f.quietNan s p
  | .infinite s, .infinite t => f.withSign (s != t) f.infinity
  | .infinite s, .finite t n _ => if n = 0 then f.invalid else f.withSign (s != t) f.infinity
  | .finite s m _, .infinite t => if m = 0 then f.invalid else f.withSign (s != t) f.infinity
  | .finite s m e, .finite t n k => f.ofScaled (s != t) (m * n) (e + k)

/-- The quotient; a number over zero is infinite, zero over zero has no value. -/
def div (a b : Nat) : Nat :=
  match f.decode a, f.decode b with
  | .nan s p, _ => f.quietNan s p
  | _, .nan s p => f.quietNan s p
  | .infinite _, .infinite _ => f.invalid
  | .infinite s, .finite t _ _ => f.withSign (s != t) f.infinity
  | .finite s _ _, .infinite t => f.withSign (s != t) 0
  | .finite s m e, .finite t n k =>
    if n = 0 then if m = 0 then f.invalid else f.withSign (s != t) f.infinity
    else
      let (num, den) := scaleByTwo m n (e - k)
      f.withSign (s != t) (f.nearest num den)

/-- The remainder of the division truncated toward zero, with the sign of the dividend. -/
def rem (a b : Nat) : Nat :=
  match f.decode a, f.decode b with
  | .nan s p, _ => f.quietNan s p
  | _, .nan s p => f.quietNan s p
  | .infinite _, _ => f.invalid
  | .finite .., .infinite _ => a
  | .finite s m e, .finite _ n k =>
    if n = 0 then f.invalid
    else
      let unit := min e k
      f.ofScaled s ((inUnits false m e unit).natAbs % (inUnits false n k unit).natAbs) unit

/-- The order of two numbers, `none` if one is a NaN. The two zeros are equal. -/
def compare? (a b : Nat) : Option Ordering :=
  match f.decode a, f.decode b with
  | .nan .., _ => none
  | _, .nan .. => none
  | .infinite s, .infinite t => some (compare (!s).toNat (!t).toNat)
  | .infinite s, .finite .. => some (if s then .lt else .gt)
  | .finite .., .infinite t => some (if t then .gt else .lt)
  | .finite s m e, .finite t n k =>
    let unit := min e k
    some (compare (inUnits s m e unit) (inUnits t n k unit))

/-- Whether the number is a zero of either sign. -/
def isZero (a : Nat) : Bool :=
  match f.decode a with
  | .finite _ m _ => m == 0
  | _ => false

/-- Whether the pattern is a NaN. -/
def isNan (a : Nat) : Bool :=
  match f.decode a with
  | .nan .. => true
  | _ => false

/-- The integer part, clamped to `[lo, hi]`; a NaN gives zero. -/
def toInt (lo hi : Int) (a : Nat) : Int :=
  match f.decode a with
  | .nan .. => 0
  | .infinite negative => if negative then lo else hi
  | .finite negative m e =>
    let (n, d) := scaleByTwo m 1 e
    let whole : Int := (n / d : Nat)
    max lo (min hi (if negative then -whole else whole))

/-- The same number in the format `g`, rounded; a NaN keeps the leading bits of its payload. -/
def convert (g : Binary) (a : Nat) : Nat :=
  match f.decode a with
  | .nan s p =>
    g.quietNan s (if f.fractionBits ≤ g.fractionBits then p * 2 ^ (g.fractionBits - f.fractionBits)
      else p / 2 ^ (f.fractionBits - g.fractionBits))
  | .infinite s => g.withSign s g.infinity
  | .finite s m e => g.ofScaled s m e

end Binary

end StackLang.Numeric
