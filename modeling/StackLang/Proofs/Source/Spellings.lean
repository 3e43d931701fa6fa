import Mathlib.Data.List.TakeWhile
import StackLang.Proofs.Numeric.Numerals
import StackLang.Proofs.Results
import StackLang.Proofs.Text.Utf8
import StackLang.Source.Tokenize

/-!
# How lexemes are spelled

`Lexeme.Spells` gives the grammar of a lexeme: which bytes a comment, a directive, a literal, a word,
a number or a mark is written with, and what may not follow it. It does not mention the scanner.
The scanner finds exactly the spelled lexemes, `Lexeme.scan_eq_ok_iff`, and so a text is read without
fault just if it is a row of spelled lexemes, which is then the one it is read as,
`lexemes_eq_iff`. Whatever a text is, the lexemes that are read first are spelled at its beginning,
`exists_lexedUpTo`.
-/

namespace StackLang.Source

open Numeric Text

/-! ## Names of marks -/

namespace Mark

theorem length_name (m : Mark) : m.name.toList.length ≤ 2 := by
  cases m <;> decide +kernel

theorem isAscii_of_mem_name (m : Mark) : ∀ c ∈ m.name.toList, IsAscii c := by
  have all : m.name.toList.all fun c => decide (IsAscii c) := by
    cases m <;> decide +kernel
  simpa using all

theorem ofName?_eq_some_iff {text : List Char} {m : Mark} :
    ofName? text = some m ↔ m.name.toList = text := by
  constructor
  · intro h
    simpa using List.find?_some h
  · rintro rfl
    exact m.ofName?_name

end Mark

namespace Lexeme

/-! ## Runs of bytes -/

/-- No byte that satisfies `p` comes next. -/
def StopsAt (p : UInt8 → Bool) (rest : List UInt8) : Prop := ∀ b ∈ rest.head?, p b = false

theorem takeWhile_append_of_stops {p : UInt8 → Bool} {more rest : List UInt8}
    (all : ∀ b ∈ more, p b) (ends : StopsAt p rest) : (more ++ rest).takeWhile p = more := by
  rw [List.takeWhile_append_of_pos all]
  cases rest with
  | nil => simp
  | cons b rest => rw [List.takeWhile_cons, ends b rfl]; simp

/-- A text is the longest run of bytes that satisfy `p`, and what is behind it. -/
theorem exists_takeWhile (p : UInt8 → Bool) (text : List UInt8) :
    ∃ rest, text = text.takeWhile p ++ rest ∧ (∀ b ∈ text.takeWhile p, p b) ∧ StopsAt p rest := by
  refine ⟨text.dropWhile p, List.takeWhile_append_dropWhile.symm,
    fun b mem => List.mem_takeWhile_imp mem, fun b mem => ?_⟩
  have first := List.head?_dropWhile_not p text
  rw [Option.mem_def.1 mem] at first
  exact first

/-! ## The grammar -/

/-- What stands between two delimiters, and the bytes it denotes. -/
inductive Quoted (delimiter : UInt8) : List UInt8 → List UInt8 → Prop where
  | nil : Quoted delimiter [] []
  | plain {b : UInt8} {text value : List UInt8} (ne : b ≠ delimiter) (plain : ofByte b ≠ '\\')
      (more : Quoted delimiter text value) : Quoted delimiter (b :: text) (b :: value)
  | escape {c e : UInt8} {text value : List UInt8} (resolved : Escape.resolve? c = some e)
      (more : Quoted delimiter text value) :
      Quoted delimiter (toByte '\\' :: c :: text) (e :: value)

/-- A directive up to its last digit. -/
def directiveBytes (file : String) (digits : List UInt8) : List UInt8 :=
  toByte '@' :: toByte '"' ::
    (Utf8.encode file.toList ++ toByte '"' :: toByte ' ' :: digits)

/-- What a lexeme that is written with the given bytes means, in front of the bytes of a text that
are given last. -/
inductive Spells : Content → List UInt8 → List UInt8 → Prop where
  | blank {b : UInt8} {rest : List UInt8} (h : isBlank b) : Spells .blank [b] rest
  | zero {rest : List UInt8} : Spells .zero [0] rest
  | comment {text rest : List UInt8} (row : lineFeed ∉ text) (ends : StopsAt (· != lineFeed) rest) :
      Spells .comment (toByte '/' :: toByte '/' :: text) rest
  /-- The name may hold any character but the quote, the line feed is missing at the end of a text
  only, and the number stops at the greatest integer. -/
  | directive {file : String} {n : Nat} {digits feed rest : List UInt8}
      (name : toByte '"' ∉ Utf8.encode file.toList)
      (number : Numeral.whole? 10 (asciiText digits) = some n)
      (ends : feed = [lineFeed] ∨ feed = [] ∧ rest = []) :
      Spells (.directive file (min maxInt64 n)) (directiveBytes file digits ++ feed) rest
  | string {text value rest : List UInt8} (body : Quoted (toByte '"') text value) :
      Spells (.token (.string (String.ofList (Utf8.decodeLossy value))))
        (toByte '"' :: (text ++ [toByte '"'])) rest
  | char {text value rest : List UInt8} (body : Quoted (toByte '\'') text value)
      (short : value.length ≤ 1) :
      Spells (.token (.char (value.headD 0))) (toByte '\'' :: (text ++ [toByte '\''])) rest
  | word {b : UInt8} {more rest : List UInt8} (first : (ofByte b).isAlpha)
      (all : ∀ c ∈ more, isWord c) (ends : StopsAt isWord rest) :
      Spells (.token (.ofWord (String.ofList (asciiText (b :: more))))) (b :: more) rest
  | decimal {b : UInt8} {more rest : List UInt8} (first : isDigit b) (all : ∀ c ∈ more, isNumber c)
      (ends : StopsAt isNumber rest)
      (unmarked : ofByte b = '0' → (more ++ rest).head?.bind radix? = none) :
      Spells (.token (decimalToken (asciiText (b :: more)))) (b :: more) rest
  | radix {c : UInt8} {radix : Nat} {more rest : List UInt8} (mark : radix? c = some radix)
      (all : ∀ c ∈ more, isWord c) (ends : StopsAt isWord rest) :
      Spells (.token (radixToken radix (asciiText more))) (toByte '0' :: c :: more) rest
  | mark {m : Mark} {rest : List UInt8}
      (longest : ∀ c ∈ rest.head?, Mark.ofName? (m.name.toList ++ [ofByte c]) = none)
      (division : m = .divide → rest.head?.map ofByte ≠ some '/') :
      Spells (.token (.mark m)) (m.name.toList.map toByte) rest

variable {b : UInt8} {bytes rest more : List UInt8} {content : Content}

/-! ## Literals -/

/-- What is written between two delimiters is read up to the second one. -/
theorem literal_of_quoted {delimiter : UInt8} {text value : List UInt8}
    (plain : ofByte delimiter ≠ '\\') (body : Quoted delimiter text value) (rest : List UInt8) :
    literal delimiter (text ++ delimiter :: rest) = .ok ⟨value, text.length + 1, true⟩ := by
  induction body with
  | nil =>
    cases rest with
    | nil => simp [literal]
    | cons c rest => simp [literal]
  | @plain b text value ne notBackslash more ih =>
    obtain ⟨c, tail, shape⟩ : ∃ c tail, text ++ delimiter :: rest = c :: tail := by
      cases text <;> simp
    rw [List.cons_append, shape, literal, if_neg ne, if_neg notBackslash, ← shape, ih]
    rfl
  | @escape c e text value resolved more ih =>
    have ne : toByte '\\' ≠ delimiter := by
      rintro rfl
      exact plain (by decide)
    rw [List.cons_append, List.cons_append, literal, if_neg ne, if_pos (by decide), resolved]
    simp only [ih, Except.map, Literal.push, List.length_cons]

/-- A literal that is closed is written between two delimiters. -/
theorem quoted_of_literal {delimiter : UInt8} {bytes : List UInt8} {l : Literal}
    (h : literal delimiter bytes = .ok l) (closed : l.closed) :
    ∃ text rest, bytes = text ++ delimiter :: rest ∧ Quoted delimiter text l.value ∧
      l.length = text.length + 1 := by
  fun_induction literal delimiter bytes generalizing l with
  | case1 => cases h; cases closed
  | case2 b =>
    cases h
    split at closed
    · rename_i same
      exact ⟨[], [], by rw [same]; rfl, by rw [if_pos same]; exact .nil, by rw [if_pos same]; rfl⟩
    · cases closed
  | case3 c rest =>
    cases h
    exact ⟨[], c :: rest, rfl, .nil, rfl⟩
  | case4 b c rest ne backslash e resolved ih =>
    obtain ⟨m, read, rfl⟩ := map_eq_ok_iff.1 h
    obtain ⟨text, after, rfl, body, length⟩ := ih read closed
    obtain rfl := (ofByte_eq_iff (by decide)).1 backslash
    exact ⟨_ :: c :: text, after, rfl, .escape resolved body, by
      simp only [Literal.push, length, List.length_cons]⟩
  | case5 => cases h
  | case6 b c rest ne plain ih =>
    obtain ⟨m, read, rfl⟩ := map_eq_ok_iff.1 h
    obtain ⟨text, after, shape, body, length⟩ := ih read closed
    exact ⟨b :: text, after, by rw [shape]; rfl, .plain ne plain body, by
      simp only [Literal.push, length, List.length_cons]⟩

/-- A literal is at fault for an escape and for nothing else. -/
theorem exists_of_literal_error {delimiter : UInt8} {cause : Cause}
    (h : literal delimiter bytes = .error cause) :
    ∃ text value e rest, bytes = text ++ toByte '\\' :: e :: rest ∧ Quoted delimiter text value ∧
      Escape.resolve? e = none ∧ cause = .invalidEscape (ofByte e) := by
  fun_induction literal delimiter bytes with
  | case1 => cases h
  | case2 => cases h
  | case3 => cases h
  | case4 b c rest ne backslash e resolved ih =>
    obtain rfl := (ofByte_eq_iff (by decide)).1 backslash
    obtain ⟨text, value, d, behind, rfl, body, none, same⟩ := ih (map_eq_error_iff.1 h)
    exact ⟨_ :: c :: text, e :: value, d, behind, rfl, .escape resolved body, none, same⟩
  | case5 b c rest ne backslash none =>
    obtain rfl := (ofByte_eq_iff (by decide)).1 backslash
    cases h
    exact ⟨[], [], c, rest, rfl, .nil, none, rfl⟩
  | case6 b c rest ne plain ih =>
    obtain ⟨text, value, d, behind, shape, body, none, same⟩ := ih (map_eq_error_iff.1 h)
    exact ⟨b :: text, b :: value, d, behind, by rw [shape]; rfl, .plain ne plain body, none, same⟩

/-! ## Words, numbers and marks -/

/-- A byte that starts neither a blank, a zero byte, a directive nor a literal. -/
def isOrdinary (b : UInt8) : Bool :=
  !isBlank b && b != 0 && ofByte b != '@' && ofByte b != '"' && ofByte b != '\''

theorem isOrdinary_iff : isOrdinary b ↔ isBlank b = false ∧ b ≠ 0 ∧ ofByte b ≠ '@' ∧
    ofByte b ≠ '"' ∧ ofByte b ≠ '\'' := by
  simp [isOrdinary, and_assoc]

theorem ordinary_of_alpha (h : (ofByte b).isAlpha) : isOrdinary b ∧ ofByte b ≠ '/' := by
  revert h
  exact forall_byte (p := fun b => (ofByte b).isAlpha → isOrdinary b ∧ ofByte b ≠ '/')
    (by decide +kernel) b

theorem ordinary_of_digit (h : isDigit b) :
    isOrdinary b ∧ ofByte b ≠ '/' ∧ (ofByte b).isAlpha = false := by
  revert h
  exact forall_byte
    (p := fun b => isDigit b → isOrdinary b ∧ ofByte b ≠ '/' ∧ (ofByte b).isAlpha = false)
    (by decide +kernel) b

theorem scan_of_alpha (h : (ofByte b).isAlpha) (all : ∀ c ∈ more, isWord c)
    (ends : StopsAt isWord rest) : scan b (more ++ rest) =
      .ok (.token (.ofWord (String.ofList (asciiText (b :: more)))), more.length) := by
  obtain ⟨ordinary, noComment⟩ := ordinary_of_alpha h
  obtain ⟨blank, zero, directive, string, char⟩ := isOrdinary_iff.1 ordinary
  simp only [scan, blank, zero, directive, string, char, noComment, h,
    takeWhile_append_of_stops all ends, decide_false, Bool.false_and, Bool.false_eq_true, if_false,
    if_true]

theorem scan_of_digit {kind : TokenKind} {n : Nat} (h : isDigit b)
    (read : number b bytes = (kind, n)) : scan b bytes = .ok (.token kind, n) := by
  obtain ⟨ordinary, noComment, alpha⟩ := ordinary_of_digit h
  obtain ⟨blank, zero, directive, string, char⟩ := isOrdinary_iff.1 ordinary
  simp only [scan, blank, zero, directive, string, char, noComment, alpha, h, read, decide_false,
    Bool.false_and, Bool.false_eq_true, if_false, if_true]

theorem scan_of_mark {m : Mark} {n : Nat} (ordinary : isOrdinary b)
    (alpha : (ofByte b).isAlpha = false) (digit : isDigit b = false)
    (noComment : ofByte b = '/' → bytes.head?.map ofByte ≠ some '/')
    (read : mark? b bytes = some (m, n)) : scan b bytes = .ok (.token (.mark m), n) := by
  obtain ⟨blank, zero, directive, string, char⟩ := isOrdinary_iff.1 ordinary
  have comment : (decide (ofByte b = '/') && decide (bytes.head?.map ofByte = some '/')) = false := by
    simpa using noComment
  simp only [scan, blank, zero, directive, string, char, comment, alpha, digit, read,
    Bool.false_eq_true, if_false]

theorem number_eq_of_unmarked (all : ∀ c ∈ more, isNumber c) (ends : StopsAt isNumber rest)
    (unmarked : ofByte b = '0' → (more ++ rest).head?.bind radix? = none) :
    number b (more ++ rest) = (decimalToken (asciiText (b :: more)), more.length) := by
  have mark : (if ofByte b = '0' then (more ++ rest).head?.bind radix? else none) = none := by
    split
    · rename_i zero
      exact unmarked zero
    · rfl
  simp only [number, mark, takeWhile_append_of_stops all ends]

theorem number_eq_of_radix {c : UInt8} {radix : Nat} (mark : radix? c = some radix)
    (all : ∀ c ∈ more, isWord c) (ends : StopsAt isWord rest) :
    number (toByte '0') (c :: more ++ rest) = (radixToken radix (asciiText more), more.length + 1) := by
  have zero : ofByte (toByte '0') = '0' := by decide
  simp only [number, zero, if_true, List.cons_append, List.head?_cons, Option.bind_some, mark,
    List.drop_succ_cons, List.drop_zero, takeWhile_append_of_stops all ends]

/-- What is read as a number is spelled as one. -/
theorem spells_of_number (digit : isDigit b) (bytes : List UInt8) :
    ∃ more rest, bytes = more ++ rest ∧ (number b bytes).2 = more.length ∧
      Spells (.token (number b bytes).1) (b :: more) rest := by
  unfold number
  dsimp only
  split
  · rename_i radix mark
    split at mark
    · rename_i zero
      obtain rfl := (ofByte_eq_iff (by decide)).1 zero
      obtain ⟨c, head, mark⟩ := Option.bind_eq_some_iff.1 mark
      obtain ⟨text, rfl⟩ := List.head?_eq_some_iff.1 head
      obtain ⟨rest, cut, all, ends⟩ := exists_takeWhile isWord text
      exact ⟨c :: text.takeWhile isWord, rest, congrArg _ cut, rfl, .radix mark all ends⟩
    · cases mark
  · rename_i mark
    obtain ⟨rest, cut, all, ends⟩ := exists_takeWhile isNumber bytes
    refine ⟨_, rest, cut, rfl, .decimal digit all ends fun zero => ?_⟩
    rw [if_pos zero] at mark
    rwa [← cut]

/-- The first byte of a mark starts nothing else. -/
theorem ordinary_of_name {m : Mark} (name : m.name.toList.map toByte = b :: more) :
    isOrdinary b ∧ (ofByte b).isAlpha = false ∧ isDigit b = false ∧
      (ofByte b = '/' → m = .divide) := by
  have first : m.name.toList.head?.map toByte = some b := by
    rw [← List.head?_map, name]
    rfl
  cases m <;> cases first <;> decide +kernel

/-- The text of a mark in front of what does not make it a longer one. -/
theorem mark?_eq_some_iff {m : Mark} {n : Nat} : mark? b rest = some (m, n) ↔
    ∃ more after, rest = more ++ after ∧ n = more.length ∧ m.name.toList.map toByte = b :: more ∧
      ∀ c ∈ after.head?, Mark.ofName? (m.name.toList ++ [ofByte c]) = none := by
  constructor
  · intro h
    unfold mark? at h
    dsimp only at h
    split at h
    · rename_i m' pair
      cases h
      obtain ⟨c, head, pair⟩ := Option.bind_eq_some_iff.1 pair
      have name := Mark.ofName?_eq_some_iff.1 pair
      obtain ⟨after, rfl⟩ := List.head?_eq_some_iff.1 head
      refine ⟨[c], after, rfl, rfl, by simp [name, toByte_ofByte], fun d _ => ?_⟩
      refine Option.eq_none_iff_forall_ne_some.2 fun m' longer => ?_
      have short := Mark.length_name m'
      rw [Mark.ofName?_eq_some_iff.1 longer, name] at short
      simp at short
    · rename_i pair
      obtain ⟨m', single, same⟩ := Option.map_eq_some_iff.1 h
      cases same
      have name := Mark.ofName?_eq_some_iff.1 single
      refine ⟨[], rest, rfl, rfl, by simp [name, toByte_ofByte], fun c mem => ?_⟩
      rw [Option.mem_def.1 mem, Option.bind_some] at pair
      rw [name]
      exact pair
  · rintro ⟨more, after, rfl, rfl, name, longest⟩
    have ascii := Mark.isAscii_of_mem_name m
    have text : m.name.toList = (b :: more).map ofByte := by
      rw [← name, List.map_map]
      refine (List.map_id _).symm.trans (List.map_congr_left fun c mem => ?_)
      exact (ofByte_toByte (ascii c mem)).symm
    have named : Mark.ofName? ((b :: more).map ofByte) = some m :=
      Mark.ofName?_eq_some_iff.2 text
    have short := Mark.length_name m
    match more with
    | [] =>
      have pair : (after.head?.bind fun c => Mark.ofName? [ofByte b, ofByte c]) = none := by
        refine Option.bind_eq_none_iff.2 fun c mem => ?_
        have none := longest c mem
        rw [text] at none
        exact none
      have single : Mark.ofName? [ofByte b] = some m := named
      simp only [mark?, List.nil_append, pair, single, Option.map_some, List.length_nil]
    | [c] =>
      have pair : Mark.ofName? [ofByte b, ofByte c] = some m := named
      simp only [mark?, List.singleton_append, List.head?_cons, Option.bind_some, pair,
        List.length_singleton]
    | c :: d :: more =>
      rw [text] at short
      simp at short

/-! ## Directives -/

theorem isDigit_iff : isDigit b ↔ Numeral.digit? 10 (ofByte b) ≠ none :=
  forall_byte (p := fun b => isDigit b ↔ Numeral.digit? 10 (ofByte b) ≠ none) (by decide +kernel) b

theorem whole?_asciiText_iff {digits : List UInt8} {n : Nat} :
    Numeral.whole? 10 (asciiText digits) = some n ↔ digits ≠ [] ∧ (∀ b ∈ digits, isDigit b) ∧
      Numeral.value 10 (Numeral.leadingDigits 10 (asciiText digits)) = n := by
  rw [Numeral.whole?_eq_some_iff]
  simp only [asciiText, List.forall_mem_map, isDigit_iff, ne_eq, List.map_eq_nil_iff]

theorem directiveParts?_eq_some {name digits feed : List UInt8} (noQuote : toByte '"' ∉ name)
    (nonempty : digits ≠ []) (all : ∀ b ∈ digits, isDigit b)
    (ends : feed = [lineFeed] ∨ feed = [] ∧ rest = []) :
    directiveParts? (toByte '"' :: (name ++ toByte '"' :: toByte ' ' :: digits) ++ feed ++ rest) =
      some (name, digits, name.length + digits.length + 3 + feed.length) := by
  have quote : ofByte (toByte '"') = '"' := by decide
  have space : ofByte (toByte ' ') = ' ' := by decide
  have shape : toByte '"' :: (name ++ toByte '"' :: toByte ' ' :: digits) ++ feed ++ rest =
      toByte '"' :: (name ++ toByte '"' :: toByte ' ' :: (digits ++ (feed ++ rest))) := by simp
  have named : (name ++ toByte '"' :: toByte ' ' :: (digits ++ (feed ++ rest))).takeWhile
      (ofByte · != '"') = name := by
    refine takeWhile_append_of_stops (fun b mem => ?_) (fun b mem => ?_)
    · refine bne_iff_ne.2 fun same => noQuote ?_
      rwa [← (ofByte_eq_iff (by decide)).1 same]
    · cases mem
      decide
  have numbered : (digits ++ (feed ++ rest)).takeWhile (· != lineFeed) = digits := by
    refine takeWhile_append_of_stops (fun b mem => ?_) (fun b mem => ?_)
    · refine bne_iff_ne.2 ?_
      rintro rfl
      exact absurd (all _ mem) (by decide)
    · rcases ends with rfl | ⟨rfl, rfl⟩
      · cases mem
        decide
      · cases mem
  have length : (if digits.length < (digits ++ (feed ++ rest)).length then 1 else 0) =
      feed.length := by
    rcases ends with rfl | ⟨rfl, rfl⟩ <;> simp
  have conditions : (ofByte (toByte '"') = '"' && ofByte (toByte ' ') = ' ' && !digits.isEmpty &&
      digits.all isDigit) = true := by
    simpa [quote, space, nonempty] using all
  rw [shape]
  unfold directiveParts?
  simp only [named, List.drop_left, numbered, length, conditions, if_true]

theorem exists_of_directiveParts? {name digits : List UInt8} {n : Nat}
    (h : directiveParts? bytes = some (name, digits, n)) :
    ∃ feed rest, bytes = toByte '"' :: (name ++ toByte '"' :: toByte ' ' :: digits) ++ feed ++ rest ∧
      toByte '"' ∉ name ∧ digits ≠ [] ∧ (∀ b ∈ digits, isDigit b) ∧
      (feed = [lineFeed] ∨ feed = [] ∧ rest = []) ∧
      n = name.length + digits.length + 3 + feed.length := by
  unfold directiveParts? at h
  split at h
  · cases h
  rename_i quote text
  obtain ⟨behind, cut, noQuote, stops⟩ := exists_takeWhile (ofByte · != '"') text
  dsimp only at h
  generalize text.takeWhile (ofByte · != '"') = name' at cut noQuote h
  subst cut
  rw [List.drop_left] at h
  split at h
  · rename_i closing space text
    obtain ⟨after, cut, noFeed, feeds⟩ := exists_takeWhile (· != lineFeed) text
    generalize text.takeWhile (· != lineFeed) = digits' at cut noFeed h
    subst cut
    split at h
    · rename_i conditions
      cases h
      simp only [Bool.and_eq_true, decide_eq_true_eq, Bool.not_eq_true', List.isEmpty_eq_false_iff,
        List.all_eq_true] at conditions
      obtain ⟨⟨⟨opening, gap⟩, nonempty⟩, all⟩ := conditions
      obtain rfl := (ofByte_eq_iff (by decide)).1 opening
      obtain rfl := (ofByte_eq_iff (by decide)).1 gap
      obtain rfl : closing = toByte '"' :=
        (ofByte_eq_iff (by decide)).1 (by simpa using stops closing rfl)
      have clean : toByte '"' ∉ name := fun mem => absurd (noQuote _ mem) (by decide)
      cases after with
      | nil => exact ⟨[], [], by simp, clean, nonempty, all, .inr ⟨rfl, rfl⟩, by simp⟩
      | cons b after =>
        obtain rfl : b = lineFeed := by simpa using feeds b rfl
        exact ⟨[lineFeed], after, by simp, clean, nonempty, all, .inl rfl, by simp⟩
    · cases h
  · cases h

theorem directive_of_spells {file : String} {n : Nat} {digits feed : List UInt8}
    (name : toByte '"' ∉ Utf8.encode file.toList)
    (number : Numeral.whole? 10 (asciiText digits) = some n)
    (ends : feed = [lineFeed] ∨ feed = [] ∧ rest = []) :
    ∃ more, directiveBytes file digits ++ feed = toByte '@' :: more ∧
      directive (more ++ rest) = .ok (.directive file (min maxInt64 n), more.length) := by
  obtain ⟨nonempty, all, value⟩ := whole?_asciiText_iff.1 number
  refine ⟨toByte '"' :: (Utf8.encode file.toList ++ toByte '"' :: toByte ' ' :: digits) ++ feed,
    rfl, ?_⟩
  rw [directive, directiveParts?_eq_some name nonempty all ends]
  simp only [Utf8.decode?_encode, String.ofList_toList, Numeral.saturating_eq (Nat.succ_pos 9),
    value, Except.ok.injEq, Prod.mk.injEq, true_and]
  simp
  omega

theorem spells_of_directive {n : Nat} (h : directive bytes = .ok (content, n)) :
    ∃ more rest, bytes = more ++ rest ∧ n = more.length ∧
      Spells content (toByte '@' :: more) rest := by
  unfold directive at h
  split at h
  · cases h
  rename_i name digits length parts
  obtain ⟨feed, rest, rfl, clean, nonempty, all, ends, rfl⟩ := exists_of_directiveParts? parts
  split at h
  · cases h
  rename_i file decoded
  obtain rfl := Utf8.encode_of_decode? decoded
  cases h
  refine ⟨_, rest, rfl, by simp; omega, ?_⟩
  rw [Numeral.saturating_eq (Nat.succ_pos 9)]
  have text : Utf8.encode (String.ofList file).toList = Utf8.encode file := by
    rw [String.toList_ofList]
  have whole := Spells.directive (text ▸ clean)
    (whole?_asciiText_iff.2 ⟨nonempty, all, rfl⟩) ends
  rw [directiveBytes, text] at whole
  exact whole

/-! ## The scanner -/

theorem scan_string (rest : List UInt8) : scan (toByte '"') rest = (do
    let l ← literal (toByte '"') rest
    return (.token (← stringToken l), l.length)) := by
  have noComment {c : Bool} : ¬ (decide (ofByte (toByte '"') = '/') && c) = true := by
    revert c
    decide
  unfold scan
  rw [if_neg (by decide), if_neg (by decide), if_neg (by decide), if_neg noComment,
    if_pos (by decide)]

theorem scan_char (rest : List UInt8) : scan (toByte '\'') rest = (do
    let l ← literal (toByte '\'') rest
    return (.token (← charToken l), l.length)) := by
  have noComment {c : Bool} : ¬ (decide (ofByte (toByte '\'') = '/') && c) = true := by
    revert c
    decide
  unfold scan
  rw [if_neg (by decide), if_neg (by decide), if_neg (by decide), if_neg noComment,
    if_neg (by decide), if_pos (by decide)]

/-- A spelled lexeme is scanned as what it means, with all of its bytes. -/
theorem scan_of_spells (h : Spells content bytes rest) :
    ∃ b more, bytes = b :: more ∧ scan b (more ++ rest) = .ok (content, more.length) := by
  cases h with
  | @blank b _ blank =>
    refine ⟨b, [], rfl, ?_⟩
    unfold scan
    rw [if_pos blank, List.length_nil]
  | zero => exact ⟨0, [], rfl, rfl⟩
  | @comment text _ row ends =>
    have run : (toByte '/' :: text ++ rest).takeWhile (· != lineFeed) = toByte '/' :: text := by
      refine takeWhile_append_of_stops (fun b mem => ?_) ends
      rcases List.mem_cons.1 mem with rfl | mem
      · decide
      · exact bne_iff_ne.2 fun same => row (same ▸ mem)
    refine ⟨_, toByte '/' :: text, rfl, ?_⟩
    unfold scan
    rw [if_neg (by decide), if_neg (by decide), if_neg (by decide), if_pos, run]
    rfl
  | directive name number ends =>
    obtain ⟨more, shape, read⟩ := directive_of_spells name number ends
    refine ⟨_, more, shape, ?_⟩
    unfold scan
    rw [if_neg (by decide), if_neg (by decide), if_pos (by decide), read]
  | @string text value _ body =>
    have read := literal_of_quoted (by decide) body rest
    refine ⟨_, text ++ [toByte '"'], rfl, ?_⟩
    rw [scan_string, List.append_assoc, List.singleton_append, read, ok_bind]
    simp only [stringToken, if_true, ok_bind, List.length_append, List.length_singleton, pure_eq_ok]
  | @char text value _ body short =>
    have read := literal_of_quoted (by decide) body rest
    refine ⟨_, text ++ [toByte '\''], rfl, ?_⟩
    rw [scan_char, List.append_assoc, List.singleton_append, read, ok_bind]
    simp only [charToken, if_neg (Nat.not_lt.2 short), if_true, ok_bind, List.length_append,
      List.length_singleton, pure_eq_ok]
  | @word b more _ first all ends =>
    exact ⟨b, more, rfl, scan_of_alpha first all ends⟩
  | @decimal b more _ first all ends unmarked =>
    exact ⟨b, more, rfl, scan_of_digit first (number_eq_of_unmarked all ends unmarked)⟩
  | @radix c radix more _ mark all ends =>
    exact ⟨toByte '0', c :: more, rfl, scan_of_digit (by decide) (number_eq_of_radix mark all ends)⟩
  | @mark m _ longest division =>
    obtain ⟨c, name, text⟩ : ∃ c name, m.name.toList.map toByte = c :: name := by
      cases m <;> exact ⟨_, _, rfl⟩
    obtain ⟨ordinary, alpha, digit, slash⟩ := ordinary_of_name text
    refine ⟨c, name, text, ?_⟩
    have found : mark? c (name ++ rest) = some (m, name.length) :=
      mark?_eq_some_iff.2 ⟨name, rest, rfl, rfl, text, longest⟩
    refine scan_of_mark ordinary alpha digit (fun same => ?_) found
    obtain rfl := slash same
    obtain rfl : name = [] := by
      have length := congrArg List.length text
      have one : Mark.divide.name.toList.length = 1 := by decide +kernel
      rw [List.length_map, one, List.length_cons] at length
      exact List.eq_nil_of_length_eq_zero (by omega)
    exact division rfl

theorem spells_of_comment (next : bytes.head?.map ofByte = some '/') :
    ∃ more rest, bytes = more ++ rest ∧ (bytes.takeWhile (· != lineFeed)).length = more.length ∧
      Spells .comment (toByte '/' :: more) rest := by
  obtain ⟨c, head, slash⟩ := Option.map_eq_some_iff.1 next
  obtain rfl := (ofByte_eq_iff (by decide)).1 slash
  obtain ⟨text, rfl⟩ := List.head?_eq_some_iff.1 head
  obtain ⟨rest, cut, row, ends⟩ := exists_takeWhile (· != lineFeed) text
  have run : (toByte '/' :: text).takeWhile (· != lineFeed) =
      toByte '/' :: text.takeWhile (· != lineFeed) := List.takeWhile_cons_of_pos (by decide)
  refine ⟨_, rest, congrArg _ cut, congrArg List.length run, .comment (fun mem => ?_) ends⟩
  exact absurd (row _ mem) (by decide)

theorem spells_of_string {n : Nat} (h : (do
      let l ← literal (toByte '"') bytes
      return (Content.token (← stringToken l), l.length)) = .ok (content, n)) :
    ∃ more rest, bytes = more ++ rest ∧ n = more.length ∧
      Spells content (toByte '"' :: more) rest := by
  obtain ⟨l, read, h⟩ := bind_eq_ok_iff.1 h
  obtain ⟨kind, token, h⟩ := bind_eq_ok_iff.1 h
  cases h
  unfold stringToken at token
  split at token
  · rename_i closed
    cases token
    obtain ⟨text, rest, rfl, body, length⟩ := quoted_of_literal read closed
    exact ⟨text ++ [_], rest, by simp, by simp [length], .string body⟩
  · cases token

theorem spells_of_char {n : Nat} (h : (do
      let l ← literal (toByte '\'') bytes
      return (Content.token (← charToken l), l.length)) = .ok (content, n)) :
    ∃ more rest, bytes = more ++ rest ∧ n = more.length ∧
      Spells content (toByte '\'' :: more) rest := by
  obtain ⟨l, read, h⟩ := bind_eq_ok_iff.1 h
  obtain ⟨kind, token, h⟩ := bind_eq_ok_iff.1 h
  cases h
  unfold charToken at token
  split at token
  · cases token
  split at token
  · rename_i short closed
    cases token
    obtain ⟨text, rest, rfl, body, length⟩ := quoted_of_literal read closed
    exact ⟨text ++ [_], rest, by simp, by simp [length], .char body (Nat.not_lt.1 short)⟩
  · cases token

theorem spells_of_mark {m : Mark} {n : Nat} (h : mark? b bytes = some (m, n))
    (noComment : ofByte b = '/' → bytes.head?.map ofByte ≠ some '/') :
    ∃ more rest, bytes = more ++ rest ∧ n = more.length ∧
      Spells (.token (.mark m)) (b :: more) rest := by
  obtain ⟨name, rest, rfl, rfl, text, longest⟩ := mark?_eq_some_iff.1 h
  refine ⟨name, rest, rfl, rfl, text ▸ .mark longest ?_⟩
  rintro rfl
  have single : b = toByte '/' ∧ name = [] := by simpa [Mark.name] using text.symm
  obtain ⟨rfl, rfl⟩ := single
  exact noComment (by decide)

/-- What the scanner takes is a spelled lexeme. -/
theorem spells_of_scan {n : Nat} (h : scan b bytes = .ok (content, n)) :
    ∃ more rest, bytes = more ++ rest ∧ n = more.length ∧ Spells content (b :: more) rest := by
  unfold scan at h
  split at h
  · cases h
    exact ⟨[], bytes, rfl, rfl, .blank ‹_›⟩
  split at h
  · cases h
    subst b
    exact ⟨[], bytes, rfl, rfl, .zero⟩
  split at h
  · rename_i start
    obtain rfl := (ofByte_eq_iff (by decide)).1 start
    exact spells_of_directive h
  split at h
  · rename_i slashes
    simp only [Bool.and_eq_true, decide_eq_true_eq] at slashes
    obtain rfl := (ofByte_eq_iff (by decide)).1 slashes.1
    cases h
    exact spells_of_comment slashes.2
  rename_i noComment
  split at h
  · rename_i quote
    obtain rfl := (ofByte_eq_iff (by decide)).1 quote
    exact spells_of_string h
  split at h
  · rename_i quote
    obtain rfl := (ofByte_eq_iff (by decide)).1 quote
    exact spells_of_char h
  split at h
  · rename_i alpha
    obtain ⟨rest, cut, all, ends⟩ := exists_takeWhile isWord bytes
    cases h
    exact ⟨_, rest, cut, rfl, .word alpha all ends⟩
  split at h
  · rename_i digit
    have spelled := spells_of_number digit bytes
    generalize number b bytes = read at h spelled
    cases h
    exact spelled
  · split at h
    · rename_i m length mark
      cases h
      exact spells_of_mark mark (by simpa using noComment)
    · split at h <;> cases h

/-- **The scanner takes the spelled lexemes and nothing else.** -/
theorem scan_eq_ok_iff {n : Nat} : scan b bytes = .ok (content, n) ↔
    ∃ more rest, bytes = more ++ rest ∧ n = more.length ∧ Spells content (b :: more) rest := by
  constructor
  · exact spells_of_scan
  · rintro ⟨more, rest, rfl, rfl, spelled⟩
    obtain ⟨c, tail, shape, scanned⟩ := scan_of_spells spelled
    cases shape
    exact scanned

theorem Spells.content_unique {other : Content} (h : Spells content bytes rest)
    (h' : Spells other bytes rest) : content = other := by
  obtain ⟨b, more, rfl, scanned⟩ := scan_of_spells h
  obtain ⟨c, tail, shape, scanned'⟩ := scan_of_spells h'
  cases shape
  rw [scanned] at scanned'
  cases scanned'
  rfl

end Lexeme

/-! ## Texts -/

/-- A text that is a row of spelled lexemes. -/
inductive Lexed : List UInt8 → List Lexeme → Prop where
  | nil : Lexed [] []
  | cons {x : Lexeme} {rest : List UInt8} {xs : List Lexeme}
      (first : Lexeme.Spells x.content x.bytes rest) (more : Lexed rest xs) :
      Lexed (x.bytes ++ rest) (x :: xs)

variable {source : List UInt8} {xs : List Lexeme}

theorem lexemes_append_of_spells {x : Lexeme} {rest : List UInt8}
    (h : Lexeme.Spells x.content x.bytes rest) :
    lexemes (x.bytes ++ rest) = (x :: (lexemes rest).1, (lexemes rest).2) := by
  obtain ⟨b, more, shape, scanned⟩ := Lexeme.scan_of_spells h
  rw [shape, List.cons_append, lexemes, scanned]
  simp only [List.drop_left, List.take_left, ← shape]

/-- **A text is read without fault just if it is a row of spelled lexemes.** -/
theorem lexemes_eq_iff : lexemes source = (xs, none) ↔ Lexed source xs := by
  constructor
  · intro h
    fun_induction lexemes source generalizing xs with
    | case1 =>
      cases h
      exact .nil
    | case2 => cases h
    | case3 b rest content length scanned more fault behind ih =>
      cases h
      obtain ⟨run, after, rfl, rfl, spelled⟩ := Lexeme.spells_of_scan scanned
      rw [List.drop_left] at behind ih
      have first : Lexeme.Spells content (b :: (run ++ after).take run.length) after := by
        rwa [List.take_left]
      have whole := Lexed.cons (x := ⟨_, _⟩) first (ih behind)
      rwa [List.take_left] at whole ⊢
  · intro h
    induction h with
    | nil => rw [lexemes]
    | cons first more ih => rw [lexemes_append_of_spells first, ih]

/-- There is one way to read a text. -/
theorem Lexed.unique {ys : List Lexeme} (first : Lexed source xs) (second : Lexed source ys) :
    xs = ys :=
  congrArg Prod.fst ((lexemes_eq_iff.2 first).symm.trans (lexemes_eq_iff.2 second))

theorem Lexed.eq_nil (h : Lexed [] xs) : xs = [] := by
  have read := lexemes_eq_iff.2 h
  rw [lexemes] at read
  cases read
  rfl

/-- The spellings of the lexemes make up the text, with nothing between them. -/
theorem Lexed.flatMap_bytes (h : Lexed source xs) : xs.flatMap Lexeme.bytes = source := by
  have read := lexemes_eq_iff.2 h
  have whole := flatMap_bytes_lexemes (congrArg Prod.snd read)
  rwa [read] at whole

/-- The rest of a text, from one of its lexemes on. -/
theorem Lexed.of_append {front : List Lexeme} (h : Lexed source (front ++ xs)) :
    ∃ rest, Lexed rest xs := by
  induction front generalizing source with
  | nil => exact ⟨source, h⟩
  | cons x front ih =>
    cases h with
    | cons first more => exact ih more

/-! ## Beginnings of texts -/

/-- A text that begins with a row of spelled lexemes, and what is behind them. -/
inductive LexedUpTo : List UInt8 → List Lexeme → List UInt8 → Prop where
  | nil {rest : List UInt8} : LexedUpTo rest [] rest
  | cons {x : Lexeme} {behind rest : List UInt8} {xs : List Lexeme}
      (first : Lexeme.Spells x.content x.bytes behind) (more : LexedUpTo behind xs rest) :
      LexedUpTo (x.bytes ++ behind) (x :: xs) rest

variable {rest : List UInt8}

/-- What is behind the lexemes is read as it is read alone. -/
theorem LexedUpTo.lexemes_eq (h : LexedUpTo source xs rest) :
    lexemes source = (xs ++ (lexemes rest).1, (lexemes rest).2) := by
  induction h with
  | nil => rfl
  | cons first more ih => rw [lexemes_append_of_spells first, ih, List.cons_append]

theorem LexedUpTo.flatMap_bytes (h : LexedUpTo source xs rest) :
    xs.flatMap Lexeme.bytes ++ rest = source := by
  induction h with
  | nil => rfl
  | cons first more ih => rw [List.flatMap_cons, List.append_assoc, ih]

theorem LexedUpTo.snoc {x : Lexeme} (h : LexedUpTo source xs (x.bytes ++ rest))
    (last : Lexeme.Spells x.content x.bytes rest) : LexedUpTo source (xs ++ [x]) rest := by
  generalize same : x.bytes ++ rest = behind at h
  induction h with
  | nil =>
    rw [← same]
    exact .cons last .nil
  | cons first more ih => exact .cons first (ih same)

/-- The lexemes that are read first are spelled at the beginning of the text. -/
theorem exists_lexedUpTo {ys : List Lexeme} {fault : Option Cause}
    (read : lexemes source = (xs ++ ys, fault)) :
    ∃ rest, LexedUpTo source xs rest ∧ lexemes rest = (ys, fault) := by
  induction xs generalizing source with
  | nil => exact ⟨source, .nil, read⟩
  | cons x xs ih =>
    cases source with
    | nil =>
      rw [lexemes] at read
      cases read
    | cons b text =>
      rw [lexemes] at read
      split at read
      · cases read
      rename_i content length scanned
      obtain ⟨run, behind, rfl, rfl, spelled⟩ := Lexeme.spells_of_scan scanned
      simp only [List.drop_left, List.take_left, List.cons_append, Prod.mk.injEq,
        List.cons.injEq] at read
      obtain ⟨⟨rfl, front⟩, last⟩ := read
      obtain ⟨rest, more, unread⟩ := ih (Prod.ext front last)
      exact ⟨rest, .cons (x := ⟨_, _⟩) spelled more, unread⟩

/-! ## Tokens -/

/-- The token that a lexeme is. -/
def Lexeme.kind? (x : Lexeme) : Option TokenKind :=
  match x.content with
  | .token kind => some kind
  | _ => none

/-- The kinds of the tokens of a scan with what they carry, or why there are none. -/
def Scan.kinds (s : Scan) : Except Cause (List TokenKind) :=
  match s.tokens with
  | .ok ts => .ok (ts.map Token.kind)
  | .error d => .error d.cause

theorem Scan.tokens_cons (l : Location) (fault : Option Cause) (x : Lexeme) (xs : List Lexeme) :
    (ofLexemes l fault (x :: xs)).tokens =
      match x.kind? with
      | none => (ofLexemes (x.place l) fault xs).tokens
      | some kind => (ofLexemes (x.place l) fault xs).tokens.map fun ts => ⟨kind, l⟩ :: ts := by
  obtain ⟨content, bytes⟩ := x
  cases content <;> rfl

/-- The kinds do not depend on the locations. -/
theorem Scan.kinds_ofLexemes (l : Location) (fault : Option Cause) (xs : List Lexeme) :
    (ofLexemes l fault xs).kinds =
      match fault with
      | none => .ok (xs.filterMap Lexeme.kind?)
      | some cause => .error cause := by
  induction xs generalizing l with
  | nil => cases fault <;> rfl
  | cons x xs ih =>
    have rest := ih (x.place l)
    unfold kinds at rest ⊢
    rw [tokens_cons, List.filterMap_cons]
    cases x.kind? with
    | none => exact rest
    | some kind =>
      cases read : (ofLexemes (x.place l) fault xs).tokens <;> rw [read] at rest
      · cases fault <;> cases rest
        rfl
      · cases fault
        · rw [← Except.ok.inj rest]
          rfl
        · cases rest

theorem Scan.eq_of_tokens {l : Location} {fault : Option Cause} {xs : List Lexeme}
    {ts : List Token} (h : (ofLexemes l fault xs).tokens = .ok ts) :
    fault = none ∧ xs.filterMap Lexeme.kind? = ts.map Token.kind := by
  have whole := kinds_ofLexemes l fault xs
  rw [kinds, h] at whole
  cases fault with
  | none => exact ⟨rfl, (Except.ok.inj whole).symm⟩
  | some cause => cases whole

end StackLang.Source
