import StackLang.Proofs.Source.Spellings

/-!
# Texts that are laid out freely

Words, marks and integers each have a spelling, and behind a blank nothing of what came before it
goes on. So a text of such spellings that are parted by blanks, with zero bytes and comments among
them, is read as the tokens that were written, however it is laid out: `kinds_scanText_of_laid`.
-/

namespace StackLang.Source

open Numeric Text

/-! ## Plain tokens -/

/-- A letter, then letters, digits and underscores. -/
def IsWordText (text : List Char) : Prop :=
  ∃ first more, text = first :: more ∧ first.isAlpha ∧ ∀ c ∈ more, c.isAlphanum ∨ c = '_'

/-- A word that the language has no use for. -/
structure IsIdentifier (name : String) : Prop where
  word : IsWordText name.toList
  noKeyword : ∀ k : Keyword, k.name ≠ name
  noType : ∀ t : DataType, t.name ≠ name
  noBuiltin : ∀ b : Builtin, b.name ≠ name

theorem IsWordText.of_check {text : List Char}
    (h : (text.head?.any Char.isAlpha && text.all fun c => c.isAlphanum || c == '_') = true) :
    IsWordText text := by
  rw [Bool.and_eq_true] at h
  obtain ⟨letter, all⟩ := h
  cases text with
  | nil => cases letter
  | cons first more =>
    refine ⟨first, more, rfl, letter, fun c mem => ?_⟩
    simpa using List.all_eq_true.1 all c (List.mem_cons_of_mem _ mem)

theorem Keyword.isWordText_name (k : Keyword) : IsWordText k.name.toList := by
  cases k <;> exact .of_check (by decide)

theorem DataType.isWordText_name (t : DataType) : IsWordText t.name.toList := by
  cases t <;> exact .of_check (by decide)

theorem Builtin.isWordText_name (b : Builtin) : IsWordText b.name.toList := by
  cases b <;> exact .of_check (by decide)

theorem Keyword.ofWord_name (k : Keyword) : TokenKind.ofWord k.name = .keyword k := by
  cases k <;> decide

theorem DataType.ofWord_name (t : DataType) : TokenKind.ofWord t.name = .type t := by
  cases t <;> decide

theorem Builtin.ofWord_name (b : Builtin) : TokenKind.ofWord b.name = .builtin b := by
  cases b <;> decide

theorem IsIdentifier.ofWord_eq {name : String} (h : IsIdentifier name) :
    TokenKind.ofWord name = .ident name := by
  have keyword : Keyword.ofName? name = none :=
    List.find?_eq_none.2 fun k _ => by simpa using h.noKeyword k
  have type : DataType.ofName? name = none :=
    List.find?_eq_none.2 fun t _ => by simpa using h.noType t
  have builtin : Builtin.ofName? name = none :=
    List.find?_eq_none.2 fun b _ => by simpa using h.noBuiltin b
  rw [TokenKind.ofWord, keyword, type, builtin]

namespace TokenKind

/-- How a token is written that is plain. -/
def spelling : TokenKind → String
  | .type t => t.name
  | .builtin b => b.name
  | .ident name => name
  | .integer n => toString n
  | kind => kind.name

/-- The words, the marks and the integers of the language. -/
def IsPlain : TokenKind → Prop
  | .keyword _ | .mark _ | .type _ | .builtin _ => True
  | .ident name => IsIdentifier name
  | .integer n => n < 2 ^ 63
  | .string _ | .char _ | .float _ => False

end TokenKind

/-- What has no meaning: blanks, zero bytes, and comments with the end of their row. -/
inductive Gap : List Char → Prop where
  | nil : Gap []
  | blank {c : Char} {text : List Char} (blank : c ∈ [' ', '\t', '\n', '\x0B', '\x0C', '\r'])
      (more : Gap text) : Gap (c :: text)
  | zero {text : List Char} (more : Gap text) : Gap ('\x00' :: text)
  | comment {row text : List Char} (single : '\n' ∉ row) (more : Gap text) :
      Gap ('/' :: '/' :: row ++ '\n' :: text)

/-- A gap that starts with a blank. -/
def Separator (text : List Char) : Prop :=
  Gap text ∧ ∃ c ∈ text.head?, c ∈ [' ', '\t', '\n', '\x0B', '\x0C', '\r']

/-- A text of plain tokens with separators between them, and maybe one behind the last of them. -/
inductive Laid : List TokenKind → List Char → Prop where
  | nil : Laid [] []
  | last (kind : TokenKind) (plain : kind.IsPlain) : Laid [kind] kind.spelling.toList
  | cons (kind : TokenKind) {kinds : List TokenKind} {gap text : List Char} (plain : kind.IsPlain)
      (parted : Separator gap) (more : Laid kinds text) :
      Laid (kind :: kinds) (kind.spelling.toList ++ gap ++ text)

/-! ## Behind a spelling -/

namespace Lexeme

variable {b : UInt8} {rest : List UInt8}

theorem ends_of_isBlank (h : isBlank b) :
    isWord b = false ∧ isNumber b = false ∧ radix? b = none ∧ ofByte b ≠ '/' := by
  revert h
  exact forall_byte (p := fun b => isBlank b → isWord b = false ∧ isNumber b = false ∧
    radix? b = none ∧ ofByte b ≠ '/') (by decide +kernel) b

theorem not_isBlank_of_mem_name (m : Mark) :
    ∀ c ∈ m.name.toList, isBlank (toByte c) = false := by
  have all : m.name.toList.all fun c => !isBlank (toByte c) := by
    cases m <;> decide
  simpa using all

/-- A blank makes no mark a longer one. -/
theorem ofName?_of_isBlank (m : Mark) (h : isBlank b) :
    Mark.ofName? (m.name.toList ++ [ofByte b]) = none := by
  refine Option.eq_none_iff_forall_ne_some.2 fun longer named => ?_
  have inside : ofByte b ∈ longer.name.toList := by
    rw [Mark.ofName?_eq_some_iff.1 named]
    exact List.mem_append_right _ List.mem_cons_self
  have noBlank := not_isBlank_of_mem_name longer _ inside
  rw [toByte_ofByte, h] at noBlank
  cases noBlank

/-- Nothing or a blank comes next. -/
def Parted (rest : List UInt8) : Prop := ∀ b ∈ rest.head?, isBlank b

theorem Parted.stopsAt {p : UInt8 → Bool} (h : Parted rest) (ends : ∀ b, isBlank b → p b = false) :
    StopsAt p rest := fun b mem => ends b (h b mem)

/-! ## Words, integers and marks -/

/-- A word in front of a blank. -/
theorem spells_word {word : List Char} (h : IsWordText word) (parted : Parted rest) :
    Spells (.token (.ofWord (String.ofList word))) (Utf8.encode word) rest := by
  obtain ⟨first, more, rfl, letter, all⟩ := h
  have ascii : ∀ c ∈ first :: more, IsAscii c := by
    intro c mem
    rcases List.mem_cons.1 mem with rfl | mem
    · exact isAscii_of_alphanum (.inl (by rw [Char.isAlphanum, letter, Bool.true_or]))
    · exact isAscii_of_alphanum (all c mem)
  have back := ofByte_toByte (ascii first List.mem_cons_self)
  have words : ∀ b ∈ more.map toByte, isWord b := by
    intro b mem
    obtain ⟨c, inside, rfl⟩ := List.mem_map.1 mem
    rw [isWord, ofByte_toByte (ascii c (List.mem_cons_of_mem _ inside))]
    simpa using all c inside
  have spelled : Spells (.token (.ofWord (String.ofList (asciiText ((first :: more).map toByte)))))
      ((first :: more).map toByte) rest :=
    .word (by rwa [back]) words (parted.stopsAt fun b h => (ends_of_isBlank h).1)
  rwa [asciiText_map_toByte ascii, ← Utf8.encode_ascii ascii] at spelled

theorem decimalToken_toDigits {n : Nat} (small : n < 2 ^ 63) :
    decimalToken (Nat.toDigits 10 n) = .integer n := by
  have noPoint : '.' ∉ Nat.toDigits 10 n := fun mem =>
    absurd (Nat.isDigit_of_mem_toDigits (by decide) (by decide) mem) (by decide)
  have whole : Numeral.whole? 10 (Nat.toDigits 10 n) = some n :=
    Numeral.whole?_toDigits (by decide) (by decide) n
  obtain ⟨-, -, value⟩ := Numeral.whole?_eq_some_iff.1 whole
  have fits : n ≤ maxInt64 := by
    rw [maxInt64]
    omega
  rw [decimalToken, if_neg (by simpa using noPoint), Numeral.saturating_eq (by decide), value,
    Nat.min_eq_right fits]

/-- An integer in front of a blank. -/
theorem spells_integer {n : Nat} (small : n < 2 ^ 63) (parted : Parted rest) :
    Spells (.token (.integer n)) (Utf8.encode (toString n).toList) rest := by
  have digits : (toString n).toList = Nat.toDigits 10 n := String.toList_ofList
  have each : ∀ c ∈ Nat.toDigits 10 n, IsAscii c ∧ isDigit (toByte c) ∧ radix? (toByte c) = none :=
    Numeral.forall_mem_toDigits 10 (by decide) (by decide) n
  have ascii : ∀ c ∈ Nat.toDigits 10 n, IsAscii c := fun c mem => (each c mem).1
  rw [digits, Utf8.encode_ascii ascii, ← decimalToken_toDigits small]
  conv in decimalToken _ => rw [← asciiText_map_toByte ascii]
  have nonempty : Nat.toDigits 10 n ≠ [] := Nat.toDigits_ne_nil
  cases text : Nat.toDigits 10 n with
  | nil => exact absurd text nonempty
  | cons first more =>
    rw [text] at each
    refine .decimal (each first List.mem_cons_self).2.1 ?_
      (parted.stopsAt fun b h => (ends_of_isBlank h).2.1) fun _ => ?_
    · intro b mem
      obtain ⟨c, inside, rfl⟩ := List.mem_map.1 mem
      rw [isNumber, (each c (List.mem_cons_of_mem _ inside)).2.1, Bool.true_or]
    · cases more with
      | nil =>
        refine Option.bind_eq_none_iff.2 fun b mem => ?_
        exact (ends_of_isBlank (parted b mem)).2.2.1
      | cons c more => exact (each c (by simp)).2.2

/-- A mark in front of a blank. -/
theorem spells_mark (m : Mark) (parted : Parted rest) :
    Spells (.token (.mark m)) (Utf8.encode m.name.toList) rest := by
  rw [Utf8.encode_ascii m.isAscii_of_mem_name]
  refine .mark (fun b mem => ofName?_of_isBlank m (parted b mem)) fun _ next => ?_
  obtain ⟨b, mem, slash⟩ := Option.map_eq_some_iff.1 next
  exact (ends_of_isBlank (parted b mem)).2.2.2 slash

/-- A plain token in front of a blank. -/
theorem spells_of_isPlain {kind : TokenKind} (plain : kind.IsPlain) (parted : Parted rest) :
    Spells (.token kind) (Utf8.encode kind.spelling.toList) rest := by
  have word {name : String} (h : IsWordText name.toList) (read : TokenKind.ofWord name = kind) :
      Spells (.token kind) (Utf8.encode name.toList) rest := by
    have spelled := spells_word h parted
    rwa [String.ofList_toList, read] at spelled
  cases kind with
  | keyword k => exact word k.isWordText_name k.ofWord_name
  | mark m => exact spells_mark m parted
  | type t => exact word t.isWordText_name t.ofWord_name
  | builtin b => exact word b.isWordText_name b.ofWord_name
  | ident name => exact word plain.word plain.ofWord_eq
  | integer n => exact spells_integer plain parted
  | string text => exact plain.elim
  | char b => exact plain.elim
  | float pattern => exact plain.elim

end Lexeme

/-! ## Gaps -/

variable {text gap : List Char} {rest : List UInt8} {xs : List Lexeme}

theorem isBlank_of_mem {c : Char} (h : c ∈ [' ', '\t', '\n', '\x0B', '\x0C', '\r']) :
    IsAscii c ∧ Lexeme.isBlank (toByte c) := by
  simp only [List.mem_cons, List.not_mem_nil, or_false] at h
  rcases h with rfl | rfl | rfl | rfl | rfl | rfl <;> decide

/-- A gap in front of lexemes is lexemes without tokens. -/
theorem Gap.exists_lexed (h : Gap gap) (behind : Lexed rest xs) :
    ∃ ys, Lexed (Utf8.encode gap ++ rest) ys ∧
      ys.filterMap Lexeme.kind? = xs.filterMap Lexeme.kind? := by
  induction h with
  | nil => exact ⟨xs, behind, rfl⟩
  | @blank c text blank _ ih =>
    obtain ⟨ys, read, kinds⟩ := ih
    obtain ⟨ascii, blank⟩ := isBlank_of_mem blank
    refine ⟨⟨.blank, [toByte c]⟩ :: ys, ?_, kinds⟩
    rw [Utf8.encode_cons_ascii ascii]
    exact .cons (x := ⟨.blank, [toByte c]⟩) (.blank blank) read
  | @zero text _ ih =>
    obtain ⟨ys, read, kinds⟩ := ih
    exact ⟨⟨.zero, [0]⟩ :: ys, .cons (x := ⟨.zero, [0]⟩) .zero read, kinds⟩
  | @comment row text single _ ih =>
    obtain ⟨ys, read, kinds⟩ := ih
    have bytes : Utf8.encode ('/' :: '/' :: row ++ '\n' :: text) ++ rest =
        (toByte '/' :: toByte '/' :: Utf8.encode row) ++
          ([lineFeed] ++ (Utf8.encode text ++ rest)) := by
      rw [Utf8.encode_append, List.append_assoc]
      rfl
    have feed : Lexed ([lineFeed] ++ (Utf8.encode text ++ rest)) (⟨.blank, [lineFeed]⟩ :: ys) :=
      .cons (x := ⟨.blank, _⟩) (.blank (by decide)) read
    have ends : Lexeme.StopsAt (· != lineFeed) ([lineFeed] ++ (Utf8.encode text ++ rest)) := by
      rintro b ⟨⟩
      decide
    refine ⟨⟨.comment, toByte '/' :: toByte '/' :: Utf8.encode row⟩ :: ⟨.blank, [lineFeed]⟩ :: ys,
      ?_, kinds⟩
    rw [bytes]
    exact .cons (x := ⟨.comment, _⟩) (.comment (Utf8.lineFeed_not_mem_encode single) ends) feed

theorem Separator.parted (h : Separator gap) (more : List UInt8) :
    Lexeme.Parted (Utf8.encode gap ++ more) := by
  obtain ⟨-, c, head, blank⟩ := h
  obtain ⟨text, rfl⟩ := List.head?_eq_some_iff.1 head
  obtain ⟨ascii, blank⟩ := isBlank_of_mem blank
  rw [Utf8.encode_cons_ascii ascii]
  rintro b ⟨⟩
  exact blank

/-! ## Texts -/

/-- A text of plain tokens is lexemes that are these tokens. -/
theorem Laid.exists_lexed {kinds : List TokenKind} (h : Laid kinds text) :
    ∃ xs, Lexed (Utf8.encode text) xs ∧ xs.filterMap Lexeme.kind? = kinds := by
  induction h with
  | nil => exact ⟨[], .nil, rfl⟩
  | last kind plain =>
    have spelled : Lexeme.Spells (.token kind) (Utf8.encode kind.spelling.toList) [] :=
      Lexeme.spells_of_isPlain plain (by rintro b ⟨⟩)
    have read := Lexed.cons (x := ⟨.token kind, _⟩) spelled .nil
    rw [List.append_nil] at read
    exact ⟨_, read, rfl⟩
  | @cons kind kinds gap text plain parted _ ih =>
    obtain ⟨xs, read, same⟩ := ih
    obtain ⟨ys, behind, kept⟩ := parted.1.exists_lexed read
    have spelled := Lexeme.spells_of_isPlain plain (parted.parted (Utf8.encode text))
    refine ⟨⟨.token kind, Utf8.encode kind.spelling.toList⟩ :: ys, ?_, ?_⟩
    · rw [Utf8.encode_append, Utf8.encode_append, List.append_assoc]
      exact .cons (x := ⟨.token kind, _⟩) spelled behind
    · rw [List.filterMap_cons, kept, same]
      rfl

/-- **Layout does not matter.** A text of plain tokens with separators between them is read as these
tokens. -/
theorem kinds_scanText_of_laid {kinds : List TokenKind} {source : String}
    (laid : Laid kinds source.toList) (file : String) :
    (scanText file source).kinds = .ok kinds := by
  obtain ⟨xs, read, same⟩ := laid.exists_lexed
  rw [scanText, scanBytes, lexemes_eq_iff.2 read]
  dsimp only
  rw [Scan.kinds_ofLexemes, same]

theorem kinds_scanText_of_laid_comment :
    Laid [.keyword .whileWord, .mark .greaterEqual, .ident "x1", .integer 42]
      "while\t// \"≥\n\x00>=\r\nx1 42".toList ∧
    (scanText "main" "while\t// \"≥\n\x00>=\r\nx1 42").kinds =
      .ok [.keyword .whileWord, .mark .greaterEqual, .ident "x1", .integer 42] := by
  have identifier : IsIdentifier "x1" :=
    ⟨.of_check (by decide), fun k => by cases k <;> decide,
      fun t => by cases t <;> decide, fun b => by cases b <;> decide⟩
  have comment : Gap ('/' :: '/' :: " \"≥".toList ++ '\n' :: ['\x00']) :=
    .comment (by decide) (.zero .nil)
  have commented : Separator "\t// \"≥\n\x00".toList :=
    ⟨.blank (by decide) comment, '\t', rfl, by decide⟩
  have row : Separator "\r\n".toList :=
    ⟨.blank (by decide) (.blank (by decide) .nil), '\r', rfl, by decide⟩
  have space : Separator " ".toList := ⟨.blank (by decide) .nil, ' ', rfl, by decide⟩
  have small : TokenKind.IsPlain (.integer 42) := show 42 < 2 ^ 63 by decide
  have laid : Laid [.keyword .whileWord, .mark .greaterEqual, .ident "x1", .integer 42]
      "while\t// \"≥\n\x00>=\r\nx1 42".toList :=
    .cons (.keyword .whileWord) trivial commented
      (.cons (.mark .greaterEqual) trivial row
        (.cons (.ident "x1") identifier space (.last (.integer 42) small)))
  exact ⟨laid, kinds_scanText_of_laid laid "main"⟩

end StackLang.Source
