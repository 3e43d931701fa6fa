import StackLang.Numeric.Binary

/-!
# Decimal text of binary numbers

Reading rounds the exact decimal once. Writing has two forms: a fixed number of places, where the
exact value is rounded half to even, and the shortest digits that read back as the same number,
of those the nearest ones. `DecimalStyle` says where the shortest form changes to an exponent.
-/

namespace StackLang.Numeric

/-- The value of a row of decimal digits. -/
def valueOfDigits (cs : List Char) : Nat :=
  cs.foldl (fun n c => n * 10 + (c.toNat - '0'.toNat)) 0

/-- The decimal number `digits * 10 ^ exponent`. -/
structure Decimal where
  digits : Nat
  exponent : Int
deriving DecidableEq, Repr

namespace Decimal

/-- An exponent: an optional sign and at least one digit. -/
def exponent? (cs : List Char) : Option Int :=
  let (negative, ds) := match cs with
    | '-' :: r => (true, r)
    | '+' :: r => (false, r)
    | r => (false, r)
  if ds.isEmpty || !ds.all Char.isDigit then none
  else
    let n : Int := valueOfDigits ds
    some (if negative then -n else n)

/-- Reads digits, an optional fraction and an optional exponent; one digit at least must stand
before the exponent. -/
def read? (cs : List Char) : Option Decimal :=
  let whole := cs.takeWhile Char.isDigit
  let (fraction, rest) := match cs.dropWhile Char.isDigit with
    | '.' :: r => (r.takeWhile Char.isDigit, r.dropWhile Char.isDigit)
    | r => ([], r)
  if whole.isEmpty && fraction.isEmpty then none
  else
    let digits := valueOfDigits (whole ++ fraction)
    match rest with
    | [] => some ⟨digits, -(fraction.length : Int)⟩
    | c :: r =>
      if c = 'e' || c = 'E' then (exponent? r).map fun e => ⟨digits, e - fraction.length⟩
      else none

/-- The fraction that a decimal stands for. -/
def toFraction (d : Decimal) : Nat × Nat :=
  if 0 ≤ d.exponent then (d.digits * 10 ^ d.exponent.toNat, 1)
  else (d.digits, 10 ^ (-d.exponent).toNat)

/-- How many digits a natural has. -/
def width (n : Nat) : Nat := (Nat.toDigits 10 n).length

/-- The nearest number of the format. The two bounds spare the powers of ten of numbers that lie
beyond every format of this library. -/
def toBinary (f : Binary) (d : Decimal) : Nat :=
  if d.digits = 0 then 0
  else
    let top := d.exponent + width d.digits
    if 400 < top then f.infinity
    else if top < -400 then 0
    else
      let (n, m) := d.toFraction
      f.nearest n m

/-- Drops trailing zeros, `fuel` of them at most. -/
def stripZeros : Nat → Decimal → Decimal
  | 0, d => d
  | fuel + 1, d =>
    if d.digits % 10 = 0 then stripZeros fuel ⟨d.digits / 10, d.exponent + 1⟩ else d

/-- The neighbour of `num / den` on the grid of multiples of `10 ^ unit` that reads back as
`bits`; the nearer one if both do, and of two equally near ones the greater. -/
def onGrid? (f : Binary) (bits num den : Nat) (unit : Int) : Option Decimal :=
  let (n, d) := if 0 ≤ unit then (num, den * 10 ^ unit.toNat) else (num * 10 ^ (-unit).toNat, den)
  let below : Decimal := ⟨n / d, unit⟩
  let above : Decimal := ⟨n / d + 1, unit⟩
  let near := if 2 * (n % d) < d then [below, above] else [above, below]
  near.find? fun c => c.toBinary f == bits

/-- The shortest decimal that reads back as the finite positive pattern `bits`. Seventeen digits
tell all numbers of both formats apart. -/
def shortest (f : Binary) (bits : Nat) : Decimal :=
  match f.decode bits with
  | .finite _ m e =>
    let (num, den) := scaleByTwo m 1 e
    let guess : Int := width num - width den
    let reached := if 0 ≤ guess then decide (den * 10 ^ guess.toNat ≤ num)
      else decide (den ≤ num * 10 ^ (-guess).toNat)
    let top := if reached then guess + 1 else guess
    let found := (List.range 17).findSome? fun (i : Nat) => onGrid? f bits num den (top - (i + 1 : Nat))
    let d := found.getD ⟨0, 0⟩
    stripZeros (width d.digits) d
  | _ => ⟨0, 0⟩

end Decimal

/-- How the shortest digits are laid out: the least decimal exponent and the first one above the
range that is written without an exponent (`none` for no limit), and whether a whole number keeps
one zero after its point. -/
structure DecimalStyle where
  positional : Option (Int × Int)
  keepsPoint : Bool

namespace DecimalStyle

/-- Digits without any exponent, whole numbers without a point. -/
def plain : DecimalStyle := ⟨none, false⟩

/-- Positional from `10 ^ (-4)` up to below `10 ^ 16`, whole numbers with a point and a zero. -/
def pointed : DecimalStyle := ⟨some (-4, 16), true⟩

/-- `n` zeros. -/
def zeros (n : Nat) : String := String.ofList (List.replicate n '0')

/-- Digits with a point in front of the last `places`. -/
def placePoint (digits places : Nat) : String :=
  let ds := Nat.toDigits 10 digits
  let ds := List.replicate (places + 1 - ds.length) '0' ++ ds
  let whole := ds.take (ds.length - places)
  String.ofList (whole ++ '.' :: ds.drop (ds.length - places))

/-- The decimal in the style; zero has no digits of its own. -/
def layOut (s : DecimalStyle) (d : Decimal) : String :=
  let top := d.exponent + Decimal.width d.digits
  let positional := d.digits == 0 || match s.positional with
    | none => true
    | some (lo, hi) => lo < top && top ≤ hi
  if positional then
    if 0 ≤ d.exponent then
      toString d.digits ++ zeros d.exponent.toNat ++ (if s.keepsPoint then ".0" else "")
    else placePoint d.digits (-d.exponent).toNat
  else
    let ds := Nat.toDigits 10 d.digits
    let mantissa := match ds with
      | c :: r => if r.isEmpty then String.ofList [c] else String.ofList (c :: '.' :: r)
      | [] => ""
    mantissa ++ "e" ++ toString (top - 1)

/-- A number of the format in the style. -/
def render (s : DecimalStyle) (f : Binary) (bits : Nat) : String :=
  match f.decode bits with
  | .nan .. => "NaN"
  | .infinite negative => if negative then "-inf" else "inf"
  | .finite negative m _ =>
    let magnitude := bits % f.signBit
    (if negative then "-" else "") ++
      s.layOut (if m = 0 then ⟨0, 0⟩ else Decimal.shortest f magnitude)

end DecimalStyle

/-- A number of the format with exactly `places` digits after the point. -/
def Binary.fixed (f : Binary) (places : Nat) (bits : Nat) : String :=
  match f.decode bits with
  | .nan .. => "NaN"
  | .infinite negative => if negative then "-inf" else "inf"
  | .finite negative m e =>
    let (n, d) := scaleByTwo (m * 10 ^ places) 1 e
    (if negative then "-" else "") ++ DecimalStyle.placePoint (roundDiv n d) places

end StackLang.Numeric
