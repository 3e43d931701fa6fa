import StackLang.Proofs.Assembly.ReadBack

/-!
# Escaped strings in assembly text

The bytes of a string are escaped one by one, and a byte that needs no escape is written as the
character with its number. A text is encoded as UTF-8 before it is read, so the byte of an ASCII
character comes back as it was, and every other byte comes back as two. An escaped text is always
read as a string literal, and it is read back exactly if it is ASCII, `assemble_pushText`.
-/

namespace StackLang.Text.Utf8

/-- A byte above the ASCII characters, taken as a character, has two bytes. -/
theorem length_encodeChar_ofByte {b : UInt8} (high : 0x80 ≤ b.toNat) :
    (String.utf8EncodeChar (ofByte b)).length = 2 := by
  have lt := b.toNat_lt
  rw [ofByte, encodeChar_two high (by omega)]
  rfl

theorem length_encode_ofByte (bytes : List UInt8) :
    (encode (bytes.map ofByte)).length =
      bytes.length + bytes.countP fun b => decide (0x80 ≤ b.toNat) := by
  induction bytes with
  | nil => rfl
  | cons b bytes ih =>
    rw [List.map_cons, encode, List.flatMap_cons, List.length_append, ← encode, ih,
      List.length_cons, List.countP_cons]
    by_cases high : 0x80 ≤ b.toNat
    · rw [length_encodeChar_ofByte high, if_pos (decide_eq_true high)]
      omega
    · rw [encodeChar_ascii (isAscii_ofByte (Nat.lt_of_not_le high)),
        if_neg (by simpa using high), List.length_singleton]
      omega

/-- Bytes that are taken as characters are the bytes of these characters just if they are those of
ASCII characters. -/
theorem encode_ofByte_eq_self_iff {bytes : List UInt8} :
    encode (bytes.map ofByte) = bytes ↔ ∀ b ∈ bytes, b.toNat < 0x80 := by
  constructor
  · intro same b mem
    have length := length_encode_ofByte bytes
    rw [same] at length
    have none : bytes.countP (fun b => decide (0x80 ≤ b.toNat)) = 0 := by omega
    simpa using List.countP_eq_zero.1 none b mem
  · exact encode_ofByte

/-- The bytes of a text are those of ASCII characters just if the text is ASCII. -/
theorem forall_mem_encode_lt_iff {text : List Char} :
    (∀ b ∈ encode text, b.toNat < 0x80) ↔ ∀ c ∈ text, IsAscii c := by
  constructor
  · intro low c mem
    by_contra wide
    obtain ⟨b, tail, bytes, -⟩ := scan_encodeChar c []
    have first : b ∈ String.utf8EncodeChar c := by
      rw [bytes]
      exact List.mem_cons_self
    have high := le_of_mem_encodeChar wide first
    have bound := low b (List.mem_flatMap.2 ⟨c, mem, first⟩)
    omega
  · intro ascii b mem
    rw [encode_ascii ascii] at mem
    obtain ⟨c, inside, rfl⟩ := List.mem_map.1 mem
    rw [toNat_toByte (ascii c inside)]
    exact ascii c inside

end StackLang.Text.Utf8

namespace StackLang.Assembly

open Bytecode Text

/-- The statement that pushes a string, with the bytes of the string escaped. -/
def pushText (bytes : List UInt8) : String := "push_str \"" ++ Escape.spellAll bytes ++ "\""

theorem toList_pushText (bytes : List UInt8) : (pushText bytes).toList =
    "push_str".toList ++ ' ' :: '"' :: (bytes.flatMap Escape.spell ++ ['"']) := by
  have spelled : (Escape.spellAll bytes).toList = bytes.flatMap Escape.spell :=
    String.toList_ofList
  rw [pushText, String.toList_append, String.toList_append, spelled, List.append_assoc]
  rfl

/-- An escaped string is on one row. -/
theorem newline_not_mem_pushText (bytes : List UInt8) : '\n' ∉ (pushText bytes).toList := by
  rw [toList_pushText]
  intro mem
  simp only [List.mem_append, List.mem_cons, List.not_mem_nil, or_false] at mem
  obtain word | space | quote | inside | quote := mem
  · revert word
    decide
  · cases space
  · cases quote
  · obtain ⟨b, -, mem⟩ := List.mem_flatMap.1 inside
    exact Escape.ne_of_mem_spell mem rfl
  · cases quote

/-- The tokens of the statement, whatever the bytes. -/
theorem tokens_pushText (after : Char) (bytes : List UInt8) :
    Row.tokens after (Utf8.encode (pushText bytes).toList) =
      ([.instruction .pushStr, .text (Utf8.encode (bytes.map ofByte))], none) := by
  have written : Utf8.encode (pushText bytes).toList = Op.pushStr.mnemonic.toList.map toByte ++
      (0x20 :: 0x22 :: (Utf8.encode (bytes.flatMap Escape.spell) ++ [0x22])) := by
    have ascii : ∀ c ∈ "push_str".toList, IsAscii c := fun c mem =>
      ((Row.IsWordText.of_mnemonic .pushStr).all c mem).1
    rw [toList_pushText, Utf8.encode_append, Utf8.encode_ascii ascii,
      Utf8.encode_cons_ascii (by decide), Utf8.encode_cons_ascii (by decide), Utf8.encode_append]
    rfl
  have literal : Row.scan after 0x22 (Utf8.encode (bytes.flatMap Escape.spell) ++ [0x22]) =
      .ok (.text (Utf8.encode (bytes.map ofByte)), []) := by
    unfold Row.scan
    rw [if_pos (by decide), Row.quoted_encode_spell after (.inr rfl)]
    rfl
  rw [written, (spells_mnemonic .pushStr).read after _ (.inr ⟨_, rfl⟩), Row.tokens,
    if_pos (by decide), Row.tokens_of_scan (by decide) literal, Row.tokens]

/-- The statement on its own is a program with one string. -/
theorem assemble_pushText_eq (bytes : List UInt8) :
    assemble (pushText bytes) =
      .ok {
        strings := [Utf8.encode (bytes.map ofByte)]
        code := #[{ op := .nop }, { op := .pushStr }] } := by
  have row := rows_of_not_mem (Utf8.lineFeed_not_mem_encode (newline_not_mem_pushText bytes))
  have line : lines (Utf8.encode (pushText bytes).toList) =
      [⟨1, [.instruction .pushStr, .text (Utf8.encode (bytes.map ofByte))], .endOfText⟩] := by
    rw [lines, row, linesFrom, Row.toLine, tokens_pushText]
    rfl
  have added : Draft.empty.addLine
      ⟨1, [.instruction .pushStr, .text (Utf8.encode (bytes.map ofByte))], .endOfText⟩ =
        .ok (Draft.empty.add 1 .pushStr (.text (Utf8.encode (bytes.map ofByte)))) :=
    (Draft.addLine_eq_ok_iff (by simp)).2
      ⟨_, .instruction (by decide) (.text _), by simp [Line.IsWhole], rfl⟩
  rw [assemble, assembleBytes, line, List.foldlM_cons, added, ok_bind, List.foldlM_nil, pure_eq_ok,
    ok_bind, Draft.finish_eq_ok_iff]
  exact ⟨rfl, rfl, rfl⟩

/-- **An escaped text reads back exactly if it is ASCII.** The statement that pushes it is always
assembled, and its string holds the bytes of the characters that the bytes of the text were written
as. -/
theorem assemble_pushText (text : String) :
    ∃ p, assemble (pushText (Utf8.encode text.toList)) = .ok p ∧
      p.code = #[{ op := .nop }, { op := .pushStr }] ∧
      p.strings = [Utf8.encode ((Utf8.encode text.toList).map ofByte)] ∧
      (p.strings = [Utf8.encode text.toList] ↔ ∀ c ∈ text.toList, IsAscii c) := by
  refine ⟨_, assemble_pushText_eq _, rfl, rfl, ?_⟩
  dsimp only
  rw [List.cons.injEq, and_iff_left rfl, Utf8.encode_ofByte_eq_self_iff,
    Utf8.forall_mem_encode_lt_iff]

/-- The program that the two bytes of a letter become: they come back as four. -/
def accentProgram : Program where
  strings := [[0xC3, 0x83, 0xC2, 0xA9]]
  code := #[{ op := .nop }, { op := .pushStr }]

theorem pushText_changes_accent :
    assemble (pushText (Utf8.encode "é".toList)) = .ok accentProgram ∧
    ¬ ∃ p, assemble (pushText (Utf8.encode "é".toList)) = .ok p ∧
      p.strings = [Utf8.encode "é".toList] := by
  have read : assemble (pushText (Utf8.encode "é".toList)) = .ok accentProgram := by
    decide +kernel
  refine ⟨read, ?_⟩
  rintro ⟨p, assembled, strings⟩
  rw [read] at assembled
  cases assembled
  revert strings
  decide +kernel

end StackLang.Assembly
