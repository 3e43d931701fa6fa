/-!
# UTF-8

`scan` reads one character from a non-empty row of bytes. Where the bytes are ill formed it takes
the longest beginning that could still have become a character. Strict decoding refuses such a
part, lossy decoding writes the replacement character for it.
-/

namespace StackLang.Text

/-- The character whose number is the byte. -/
def ofByte (b : UInt8) : Char := Char.ofNat b.toNat

/-- The text of a row of ASCII bytes. -/
def asciiText (bytes : List UInt8) : List Char := bytes.map ofByte

/-- Whether a byte may stand in a word after its first letter. -/
def isWord (b : UInt8) : Bool := (ofByte b).isAlphanum || ofByte b = '_'

namespace Utf8

/-- The bytes of a text. -/
def encode (text : List Char) : List UInt8 := text.flatMap String.utf8EncodeChar

/-- Whether a byte continues a character. -/
def isTail (b : UInt8) : Bool := 0x80 ≤ b && b ≤ 0xBF

/-- Whether `b` may follow `a`, the first of three bytes: no longer form of a shorter character
and no surrogate. -/
def isSecondOfThree (a b : UInt8) : Bool :=
  isTail b && (a != 0xE0 || 0xA0 ≤ b) && (a != 0xED || b ≤ 0x9F)

/-- Whether `b` may follow `a`, the first of four bytes: no longer form of a shorter character
and nothing above the last plane. -/
def isSecondOfFour (a b : UInt8) : Bool :=
  isTail b && (a != 0xF0 || 0x90 ≤ b) && (a != 0xF4 || b ≤ 0x8F)

/-- The character with the given payload bits, six for each byte after the first. -/
def join (lead : Nat) (tails : List UInt8) : Char :=
  Char.ofNat (tails.foldl (fun n b => n * 64 + b.toNat % 64) lead)

/-- The character that starts with `a`, or `none` for an ill-formed part, and the bytes after
it. -/
def scan (a : UInt8) (rest : List UInt8) : Option Char × List UInt8 :=
  if a < 0x80 then (some (ofByte a), rest)
  else if 0xC2 ≤ a && a ≤ 0xDF then
    match rest with
    | [] => (none, [])
    | b :: r => if isTail b then (some (join (a.toNat % 32) [b]), r) else (none, rest)
  else if 0xE0 ≤ a && a ≤ 0xEF then
    match rest with
    | [] => (none, [])
    | b :: r =>
      if isSecondOfThree a b then
        match r with
        | [] => (none, [])
        | c :: s => if isTail c then (some (join (a.toNat % 16) [b, c]), s) else (none, r)
      else (none, rest)
  else if 0xF0 ≤ a && a ≤ 0xF4 then
    match rest with
    | [] => (none, [])
    | b :: r =>
      if isSecondOfFour a b then
        match r with
        | [] => (none, [])
        | c :: s =>
          if isTail c then
            match s with
            | [] => (none, [])
            | d :: t => if isTail d then (some (join (a.toNat % 8) [b, c, d]), t) else (none, s)
          else (none, r)
      else (none, rest)
  else (none, rest)

/-- A scan gives back no more than it was given. -/
theorem scan_length_le (a : UInt8) (rest : List UInt8) :
    (scan a rest).2.length ≤ rest.length := by
  unfold scan
  repeat' split
  all_goals simp only [List.length_cons, List.length_nil]
  all_goals omega

/-- The characters of a text in order, `none` for each ill-formed part. -/
def parts : List UInt8 → List (Option Char)
  | [] => []
  | a :: rest => (scan a rest).1 :: parts (scan a rest).2
termination_by bytes => bytes.length
decreasing_by
  have := scan_length_le a rest
  simp only [List.length_cons]
  omega

/-- The text that the bytes encode, if they are well formed throughout. -/
def decode? (bytes : List UInt8) : Option (List Char) := (parts bytes).mapM id

/-- The text that the bytes encode, each ill-formed part replaced by U+FFFD. -/
def decodeLossy (bytes : List UInt8) : List Char := (parts bytes).map (·.getD '\uFFFD')

end Utf8

end StackLang.Text
