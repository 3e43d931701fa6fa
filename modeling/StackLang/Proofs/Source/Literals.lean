import StackLang.Proofs.Source.Spellings

/-!
# String literals

Between double quotes every character but the quote and the backslash may stand for itself, and
twelve characters may be written as a backslash and a mark. However a text is written so, the bytes
of the literal are those of the text: none of the bytes of a longer character is a quote or a
backslash, and an escape gives all of the one byte of its character. So the decoder has nothing to
replace, and the literal is read as one token that holds the text, `scanText_of_written`.
-/

namespace StackLang.Source

open Text

/-- The marks behind a backslash, and the characters that are written with them. -/
def escapes : List (Char × Char) :=
  [('n', '\n'), ('t', '\t'), ('v', '\x0B'), ('b', '\x08'), ('r', '\r'), ('f', '\x0C'),
    ('a', '\x07'), ('\\', '\\'), ('?', '?'), ('\'', '\''), ('"', '"'), ('0', '\x00')]

/-- A text, and how it may be written between double quotes. -/
inductive Written : List Char → List Char → Prop where
  | nil : Written [] []
  | raw {c : Char} {text spelling : List Char} (quote : c ≠ '"') (backslash : c ≠ '\\')
      (more : Written text spelling) : Written (c :: text) (c :: spelling)
  | escaped {mark c : Char} {text spelling : List Char} (pair : (mark, c) ∈ escapes)
      (more : Written text spelling) : Written (c :: text) ('\\' :: mark :: spelling)

theorem resolve?_of_mem_escapes {mark c : Char} (pair : (mark, c) ∈ escapes) :
    IsAscii mark ∧ IsAscii c ∧ Escape.resolve? (toByte mark) = some (toByte c) := by
  have each : ∀ p ∈ escapes, IsAscii p.1 ∧ IsAscii p.2 ∧
      Escape.resolve? (toByte p.1) = some (toByte p.2) := by decide
  exact each _ pair

namespace Lexeme

variable {delimiter : UInt8} {text value : List UInt8}

/-- Bytes that stand for themselves, in front of more of a literal. -/
theorem Quoted.plain_append {front : List UInt8}
    (plain : ∀ b ∈ front, b ≠ delimiter ∧ b ≠ toByte '\\') (more : Quoted delimiter text value) :
    Quoted delimiter (front ++ text) (front ++ value) := by
  induction front with
  | nil => exact more
  | cons b front ih =>
    obtain ⟨ne, backslash⟩ := plain b List.mem_cons_self
    refine .plain ne (fun same => backslash ?_) (ih fun c mem => plain c (List.mem_cons_of_mem _ mem))
    exact (ofByte_eq_iff (by decide)).1 same

/-- The bytes of a written text denote the bytes of the text. -/
theorem quoted_of_written {text spelling : List Char} (h : Written text spelling) :
    Quoted (toByte '"') (Utf8.encode spelling) (Utf8.encode text) := by
  induction h with
  | nil => exact .nil
  | @raw c text spelling quote backslash _ ih =>
    -- A byte of `c` that were a quote or a backslash would make `c` that character.
    refine Quoted.plain_append (fun b mem => ⟨?_, ?_⟩) ih
    · rintro rfl
      exact Utf8.toByte_not_mem_encodeChar (by decide) quote mem
    · rintro rfl
      exact Utf8.toByte_not_mem_encodeChar (by decide) backslash mem
  | @escaped mark c text spelling pair _ ih =>
    obtain ⟨asciiMark, ascii, resolved⟩ := resolve?_of_mem_escapes pair
    rw [Utf8.encode_cons_ascii (by decide), Utf8.encode_cons_ascii asciiMark,
      Utf8.encode_cons_ascii ascii]
    exact .escape resolved ih

end Lexeme

/-- **String literals lose nothing.** However a text is written between double quotes, the literal
is one token that holds the text, and nothing else is read or remarked. -/
theorem scanText_of_written {text spelling : String} (h : Written text.toList spelling.toList)
    (file : String) : scanText file ("\"" ++ spelling ++ "\"") =
      ⟨[], .ok [⟨.string text, .start file⟩]⟩ := by
  have bytes : Utf8.encode ("\"" ++ spelling ++ "\"").toList =
      toByte '"' :: (Utf8.encode spelling.toList ++ [toByte '"']) := by
    rw [String.toList_append, String.toList_append, Utf8.encode_append, Utf8.encode_append]
    rfl
  have spelled := @Lexeme.Spells.string _ _ [] (Lexeme.quoted_of_written h)
  rw [Utf8.decodeLossy_encode, String.ofList_toList, ← bytes] at spelled
  have read : Lexed (Utf8.encode ("\"" ++ spelling ++ "\"").toList ++ [])
      [⟨.token (.string text), Utf8.encode ("\"" ++ spelling ++ "\"").toList⟩] :=
    .cons (x := ⟨_, _⟩) spelled .nil
  rw [List.append_nil] at read
  rw [scanText, scanBytes, lexemes_eq_iff.2 read]
  rfl

theorem scanText_of_written_mixed :
    Written "é\"\n\x00".toList "é\\\"\n\\0".toList ∧
    scanText "main" ("\"" ++ "é\\\"\n\\0" ++ "\"") =
      ⟨[], .ok [⟨.string "é\"\n\x00", .start "main"⟩]⟩ := by
  have written : Written "é\"\n\x00".toList "é\\\"\n\\0".toList :=
    .raw (by decide) (by decide) (.escaped (by decide) (.raw (by decide) (by decide)
      (.escaped (by decide) .nil)))
  exact ⟨written, scanText_of_written written "main"⟩

end StackLang.Source
