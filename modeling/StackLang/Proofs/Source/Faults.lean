import StackLang.Proofs.Source.Literals
import StackLang.Proofs.Source.Locations
import StackLang.Proofs.Source.Slices

/-!
# The characters that faults name

A text that can not be read stops the lexer between two characters, behind lexemes that are spelled
and in front of what is none. A fault about the character there names it whole, however many bytes
it has. A fault about an escape is found inside a literal, at a byte: it names the character with
the number of that byte. That is the character behind the backslash if it is an ASCII character, and
else for `Ã` only, whose number is that of its first byte.

`character_of_scanText` says both.
-/

namespace StackLang.Source

open Numeric Text

/-! ## The first byte of a character -/

/-- The characters that have the number of their first byte. -/
theorem ofByte_eq_iff_of_encodeChar {c : Char} {b : UInt8} {tail : List UInt8}
    (bytes : String.utf8EncodeChar c = b :: tail) : ofByte b = c ↔ IsAscii c ∨ c = 'Ã' := by
  constructor
  · intro same
    by_cases ascii : IsAscii c
    · exact .inl ascii
    right
    have number : b.toNat = c.toNat := by rw [← same, toNat_ofByte]
    have small := b.toNat_lt
    have large : 128 ≤ c.toNat := Nat.not_lt.1 ascii
    have two := Utf8.encodeChar_two large (by omega)
    rw [Char.ofNat_toNat, bytes] at two
    have first := congrArg UInt8.toNat (List.cons.inj two).1
    rw [UInt8.toNat_ofNat_of_lt' (by simp only [UInt8.size]; omega)] at first
    -- The first of the two bytes is 194 or 195, and 195 alone is the first byte of its character.
    have value : c.toNat = 195 := by omega
    rw [← Char.ofNat_toNat c, value]
  · rintro (ascii | rfl)
    · rw [Utf8.encodeChar_ascii ascii] at bytes
      obtain ⟨rfl, -⟩ := List.cons.inj bytes
      exact ofByte_toByte ascii
    · cases bytes
      decide

/-- What a text starts with is whole characters. -/
theorem LexedUpTo.exists_text {source rest : List UInt8} {xs : List Lexeme}
    (h : LexedUpTo source xs rest) {text : List Char} (whole : Utf8.encode text = source) :
    ∃ front back, text = front ++ back ∧ rest = Utf8.encode back := by
  induction h generalizing text with
  | nil => exact ⟨[], text, rfl, whole.symm⟩
  | cons first more ih =>
    obtain ⟨before, behind, rfl, -, rfl⟩ := first.exists_text whole
    obtain ⟨front, back, rfl, rest⟩ := ih rfl
    exact ⟨before ++ front, back, (List.append_assoc _ _ _).symm, rest⟩

/-! ## Faults of the scanner -/

namespace Lexeme

variable {b : UInt8} {bytes rest : List UInt8} {cause : Cause}

/-- The faults that name no character. -/
def namelessCauses : List Cause :=
  [.invalidDirective, .brokenCharacter, .unterminatedString, .unterminatedChar, .multipleCharacters]

theorem nameless_of_directive (h : directive rest = .error cause) : cause ∈ namelessCauses := by
  unfold directive at h
  split at h
  · cases h
    decide
  split at h
  · cases h
    decide
  · cases h

/-- A literal is read and is no token, or it can not be read. -/
theorem literal_of_error {token : Literal → Except Cause TokenKind}
    (nameless : ∀ l, token l = .error cause → cause ∈ namelessCauses) (h : (do
      let l ← literal b rest
      return (Content.token (← token l), l.length)) = .error cause) :
    literal b rest = .error cause ∨ cause ∈ namelessCauses := by
  rcases bind_eq_error_iff.1 h with unread | ⟨l, -, h⟩
  · exact .inl unread
  rcases bind_eq_error_iff.1 h with none | ⟨kind, -, h⟩
  · exact .inr (nameless l none)
  · cases h

theorem nameless_of_stringToken (l : Literal) (h : stringToken l = .error cause) :
    cause ∈ namelessCauses := by
  unfold stringToken at h
  split at h
  · cases h
  · cases h
    decide

theorem nameless_of_charToken (l : Literal) (h : charToken l = .error cause) :
    cause ∈ namelessCauses := by
  unfold charToken at h
  split at h
  · cases h
    decide
  split at h
  · cases h
  · cases h
    decide

/-- A fault that names a character is about the first one or about a literal. -/
theorem cases_of_scan_error (h : scan b rest = .error cause) :
    (∃ c, cause = .unexpectedCharacter c ∧ (Utf8.scan b rest).1 = some c) ∨
      ((ofByte b = '"' ∨ ofByte b = '\'') ∧ literal b rest = .error cause) ∨
      cause ∈ namelessCauses := by
  unfold scan at h
  split at h
  · cases h
  split at h
  · cases h
  split at h
  · exact .inr (.inr (nameless_of_directive h))
  split at h
  · cases h
  split at h
  · rename_i quote
    rcases literal_of_error nameless_of_stringToken h with unread | nameless
    · exact .inr (.inl ⟨.inl quote, unread⟩)
    · exact .inr (.inr nameless)
  split at h
  · rename_i quote
    rcases literal_of_error nameless_of_charToken h with unread | nameless
    · exact .inr (.inl ⟨.inr quote, unread⟩)
    · exact .inr (.inr nameless)
  split at h
  · cases h
  split at h
  · cases h
  split at h
  · cases h
  split at h
  · rename_i c found
    cases h
    exact .inl ⟨c, rfl, found⟩
  · cases h
    exact .inr (.inr (by decide))

theorem head_of_unexpected {text : List Char} {c : Char} (whole : Utf8.encode text = b :: rest)
    (h : scan b rest = .error (.unexpectedCharacter c)) : text.head? = some c := by
  rcases cases_of_scan_error h with ⟨d, same, found⟩ | ⟨-, unread⟩ | nameless
  · cases same
    obtain ⟨x, more, tail, rfl, -, scanned⟩ := Utf8.exists_first whole
    rw [scanned] at found
    exact found
  · obtain ⟨_, _, _, _, -, -, -, same⟩ := exists_of_literal_error unread
    cases same
  · simp [namelessCauses] at nameless

end Lexeme

/-- The text starts with a quote, what can stand between two of them, a backslash, and `c`, which
makes no escape. -/
def BreaksEscape (text : List Char) (c : Char) : Prop :=
  ∃ quote inside value more, text = quote :: inside ++ '\\' :: c :: more ∧
    (quote = '"' ∨ quote = '\'') ∧
    Lexeme.Quoted (toByte quote) (Utf8.encode inside) value ∧ ∀ d, (c, d) ∉ escapes

namespace Lexeme

variable {b : UInt8} {rest : List UInt8}

/-- What stands behind the quote of a literal and in front of its fault is whole characters. -/
theorem breaksEscape_of_invalid {text : List Char} {d : Char}
    (whole : Utf8.encode text = b :: rest) (h : scan b rest = .error (.invalidEscape d)) :
    ∃ c e tail, BreaksEscape text c ∧ String.utf8EncodeChar c = e :: tail ∧ d = ofByte e := by
  rcases cases_of_scan_error h with ⟨c, same, -⟩ | ⟨quote, unread⟩ | nameless
  · cases same
  · obtain ⟨between, value, e, behind, rfl, body, none, same⟩ := exists_of_literal_error unread
    cases same
    have low : b.toNat < 128 := by
      have ascii : IsAscii (ofByte b) := by
        rcases quote with quote | quote <;> (rw [quote]; decide)
      rwa [IsAscii, toNat_ofByte] at ascii
    obtain ⟨x, text, -, rfl, -, first⟩ := Utf8.exists_first whole
    rw [Utf8.scan_one low, Prod.mk.injEq, Option.some.injEq] at first
    obtain ⟨rfl, bytes⟩ := first
    obtain ⟨inside, u, rfl, rfl, last⟩ := Utf8.exists_split_of_ascii (by decide) bytes.symm
    obtain ⟨c, more, tail, rfl, written, -⟩ := Utf8.exists_first last.symm
    refine ⟨c, e, tail, ⟨ofByte b, inside, value, more, rfl, quote, ?_, ?_⟩, written, rfl⟩
    · rwa [toByte_ofByte]
    · intro f pair
      obtain ⟨ascii, -, resolved⟩ := resolve?_of_mem_escapes pair
      rw [Utf8.encodeChar_ascii ascii] at written
      obtain ⟨rfl, -⟩ := List.cons.inj written
      rw [none] at resolved
      cases resolved
  · simp [namelessCauses] at nameless

end Lexeme

/-! ## Texts -/

/-- The text is read up to the characters `back` as the lexemes `xs`, and no lexeme is spelled
there. -/
structure StopsBehind (source : String) (xs : List Lexeme) (back : List Char) : Prop where
  suffix : back <:+ source.toList
  read : LexedUpTo (Utf8.encode source.toList) xs (Utf8.encode back)
  rejected : ∀ content bytes rest, Utf8.encode back = bytes ++ rest →
    ¬ Lexeme.Spells content bytes rest

/-- The fault that ends a scan, and where it is. -/
theorem Scan.eq_of_error {l : Location} {fault : Option Cause} {xs : List Lexeme} {d : Diagnostic}
    (h : (ofLexemes l fault xs).tokens = .error d) :
    fault = some d.cause ∧ d.loc = l.through xs := by
  induction xs generalizing l with
  | nil =>
    cases fault with
    | none => cases h
    | some cause =>
      cases h
      exact ⟨rfl, rfl⟩
  | cons x xs ih =>
    rw [Scan.tokens_cons] at h
    split at h
    · exact ih h
    · exact ih (map_eq_error_iff.1 h)

/-- Where the lexer stops for a fault, a lexeme can not be scanned. -/
theorem exists_stopsBehind {source : String} {xs : List Lexeme} {cause : Cause}
    (read : lexemes (Utf8.encode source.toList) = (xs, some cause)) :
    ∃ back b rest, StopsBehind source xs back ∧ Utf8.encode back = b :: rest ∧
      Lexeme.scan b rest = .error cause := by
  have stopped : lexemes (Utf8.encode source.toList) = (xs ++ [], some cause) := by
    rw [List.append_nil, read]
  obtain ⟨behind, lexed, unread⟩ := exists_lexedUpTo stopped
  obtain ⟨front, back, text, rfl⟩ := lexed.exists_text rfl
  cases bytes : Utf8.encode back with
  | nil =>
    rw [bytes, lexemes] at unread
    cases unread
  | cons b rest =>
    rw [bytes, lexemes] at unread
    split at unread
    · rename_i failed
      cases unread
      refine ⟨back, b, rest, ⟨⟨front, text.symm⟩, lexed, ?_⟩, bytes, failed⟩
      intro content run more whole spelled
      obtain ⟨c, tail, rfl, scanned⟩ := Lexeme.scan_of_spells spelled
      obtain ⟨rfl, rfl⟩ := List.cons.inj (bytes.symm.trans whole)
      cases scanned.symm.trans failed
    · cases unread

/-- **Faults name characters of the text.** A text that can not be read is read up to a place
between two of its characters, where no lexeme is spelled, and the location of the fault is that
place. If the fault is about the character there, it names this character. If it is about an escape,
a literal starts there, and the fault names the character with the number of the first byte of the
one behind the backslash; these are the same just for the ASCII characters and for `Ã`. -/
theorem character_of_scanText {file source : String} {d : Diagnostic}
    (failed : (scanText file source).tokens = .error d) :
    ∃ xs back, StopsBehind source xs back ∧ d.loc = (Location.start file).through xs ∧
      (∀ c, d.cause = .unexpectedCharacter c → back.head? = some c) ∧
      ∀ c, d.cause = .invalidEscape c → ∃ e, BreaksEscape back e ∧
        (String.utf8EncodeChar e).head?.map ofByte = some c ∧ (c = e ↔ IsAscii e ∨ e = 'Ã') := by
  obtain ⟨xs, fault, read⟩ : ∃ xs fault, lexemes (Utf8.encode source.toList) = (xs, fault) :=
    ⟨_, _, rfl⟩
  rw [scanText, scanBytes, read] at failed
  obtain ⟨rfl, loc⟩ := Scan.eq_of_error failed
  obtain ⟨back, b, rest, stops, bytes, scanned⟩ := exists_stopsBehind read
  refine ⟨xs, back, stops, loc, ?_, ?_⟩
  · intro c cause
    exact Lexeme.head_of_unexpected bytes (cause ▸ scanned)
  · intro c cause
    obtain ⟨e, first, tail, breaks, written, rfl⟩ :=
      Lexeme.breaksEscape_of_invalid bytes (cause ▸ scanned)
    refine ⟨e, breaks, ?_, ofByte_eq_iff_of_encodeChar written⟩
    rw [written]
    rfl

/-- A character of three bytes behind a literal with one of two. -/
theorem character_of_scanText_euro :
    (scanText "main" "\"é\\n\" €").tokens =
        .error ⟨⟨"main", 1, 7⟩, .unexpectedCharacter '€'⟩ ∧
      ∃ xs back, StopsBehind "\"é\\n\" €" xs back ∧
        ⟨"main", 1, 7⟩ = (Location.start "main").through xs ∧ back.head? = some '€' := by
  have failed : (scanText "main" "\"é\\n\" €").tokens =
      .error ⟨⟨"main", 1, 7⟩, .unexpectedCharacter '€'⟩ := by decide +kernel
  obtain ⟨xs, back, stops, loc, unexpected, -⟩ := character_of_scanText failed
  exact ⟨failed, xs, back, stops, loc, unexpected '€' rfl⟩

/-- The fault about an escaped accent names a character that is nowhere in the text. -/
theorem scanText_misnames_accent :
    (scanText "main" "\"\\é\"").tokens = .error ⟨.start "main", .invalidEscape 'Ã'⟩ ∧
      'Ã' ∉ "\"\\é\"".toList := by
  decide +kernel

end StackLang.Source
