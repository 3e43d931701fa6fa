/-!
# White space

Two sets of blanks: the five ASCII ones, and the characters with the Unicode property
`White_Space`.
-/

namespace StackLang.Text

/-- Space, tab, line feed, form feed and carriage return. -/
def isAsciiBlank (c : Char) : Bool :=
  c = ' ' || c = '\t' || c = '\n' || c = '\x0c' || c = '\r'

/-- The characters with the property `White_Space`. -/
def isBlank (c : Char) : Bool :=
  let n := c.toNat
  (0x09 ≤ n && n ≤ 0x0D) || n == 0x20 || n == 0x85 || n == 0xA0 || n == 0x1680 ||
    (0x2000 ≤ n && n ≤ 0x200A) || n == 0x2028 || n == 0x2029 || n == 0x202F || n == 0x205F ||
    n == 0x3000

/-- A text without the characters at either end that satisfy `p`. -/
def trimBoth (p : Char → Bool) (text : List Char) : List Char :=
  ((text.dropWhile p).reverse.dropWhile p).reverse

/-- The words of a text between characters that satisfy `p`; `word` holds the letters of the
current one, last first. -/
def wordsFrom (p : Char → Bool) (word : List Char) : List Char → List (List Char)
  | [] => if word.isEmpty then [] else [word.reverse]
  | c :: r =>
    if p c then
      if word.isEmpty then wordsFrom p [] r else word.reverse :: wordsFrom p [] r
    else wordsFrom p (c :: word) r

/-- The words of a text that Unicode blanks separate. -/
def words (text : List Char) : List (List Char) := wordsFrom isBlank [] text

end StackLang.Text
