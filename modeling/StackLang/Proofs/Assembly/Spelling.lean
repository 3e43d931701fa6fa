import StackLang.Assembly.Line
import StackLang.Proofs.Numeric.Numerals
import StackLang.Proofs.Results
import StackLang.Proofs.Text.Utf8

/-!
# Spellings of tokens

A text spells a token if a row that starts with it is read as the token and then the rest, as long
as a space or nothing follows. Words, numbers and quoted literals are spelled so, and spellings
with a space between each two of them spell the row of their tokens.
-/

namespace StackLang.Text.Escape

/-- A backslash and the mark of a byte stand for the byte, which is one of an ASCII character. -/
theorem resolve?_of_mark? {b : UInt8} {c : Char} (h : mark? b = some c) :
    IsAscii c ∧ c ≠ '\n' ∧ b.toNat < 128 ∧ resolve? (toByte c) = some b := by
  have each : ∀ b, (mark? b).all fun c =>
      decide (IsAscii c ∧ c ≠ '\n' ∧ b.toNat < 128 ∧ resolve? (toByte c) = some b) :=
    forall_byte (by decide +kernel)
  have checked := each b
  rw [h] at checked
  exact of_decide_eq_true checked

/-- A byte without a mark is none of those that mean something between quotes. -/
theorem ne_of_mark? {b : UInt8} (h : mark? b = none) :
    b ≠ 0x0A ∧ b ≠ 0x5C ∧ b ≠ 0x27 ∧ b ≠ 0x22 := by
  refine ⟨?_, ?_, ?_, ?_⟩ <;> rintro rfl <;> revert h <;> decide

theorem spell_cases (b : UInt8) :
    (∃ c, mark? b = some c ∧ spell b = ['\\', c]) ∨ mark? b = none ∧ spell b = [ofByte b] := by
  unfold spell
  cases mark? b with
  | none => exact .inr ⟨rfl, rfl⟩
  | some c => exact .inl ⟨c, rfl, rfl⟩

/-- An escaped byte is written on one row. -/
theorem ne_of_mem_spell {b : UInt8} {c : Char} (mem : c ∈ spell b) : c ≠ '\n' := by
  obtain ⟨m, marked, spelled⟩ | ⟨unmarked, spelled⟩ := spell_cases b
  · obtain ⟨-, ne, -, -⟩ := resolve?_of_mark? marked
    rw [spelled] at mem
    rcases List.mem_cons.1 mem with rfl | mem
    · decide
    · rwa [List.mem_singleton.1 mem]
  · rw [spelled] at mem
    rw [List.mem_singleton.1 mem]
    exact fun same => (ne_of_mark? unmarked).1 ((ofByte_eq_iff (by decide)).1 same)

/-- The characters of an escaped ASCII byte. -/
theorem isAscii_of_mem_spell {b : UInt8} (h : b.toNat < 128) {c : Char} (mem : c ∈ spell b) :
    IsAscii c := by
  obtain ⟨m, marked, spelled⟩ | ⟨-, spelled⟩ := spell_cases b
  · rw [spelled] at mem
    rcases List.mem_cons.1 mem with rfl | mem
    · decide
    · rw [List.mem_singleton.1 mem]
      exact (resolve?_of_mark? marked).1
  · rw [spelled] at mem
    rw [List.mem_singleton.1 mem]
    exact isAscii_ofByte h

end StackLang.Text.Escape

namespace StackLang.Assembly.Row

open Numeric Text

/-! ## Quoted literals -/

theorem quoted_escape {after : Char} {delimiter c e : UInt8} (h : Escape.resolve? c = some e)
    (rest : List UInt8) :
    quoted after delimiter (0x5C :: c :: rest) =
      (quoted after delimiter rest).map fun (bytes, r) => (e :: bytes, r) := by
  rw [quoted.eq_def]
  simp [h]

theorem quoted_close {after : Char} {delimiter : UInt8} (h : delimiter ≠ 0x5C)
    (rest : List UInt8) : quoted after delimiter (delimiter :: rest) = .ok ([], rest) := by
  rw [quoted.eq_def]
  simp [h]

theorem quoted_cons {after : Char} {delimiter b : UInt8} (backslash : b ≠ 0x5C)
    (h : b ≠ delimiter) (rest : List UInt8) :
    quoted after delimiter (b :: rest) =
      (quoted after delimiter rest).map fun (bytes, r) => (b :: bytes, r) := by
  rw [quoted.eq_def]
  simp [backslash, h]

theorem quoted_append {after : Char} {delimiter : UInt8} {front : List UInt8}
    (plain : ∀ b ∈ front, b ≠ 0x5C ∧ b ≠ delimiter) (rest : List UInt8) :
    quoted after delimiter (front ++ rest) =
      (quoted after delimiter rest).map fun (bytes, r) => (front ++ bytes, r) := by
  induction front with
  | nil =>
    rw [List.nil_append]
    cases quoted after delimiter rest <;> rfl
  | cons b front ih =>
    obtain ⟨backslash, ne⟩ := plain b List.mem_cons_self
    rw [List.cons_append, quoted_cons backslash ne,
      ih fun c mem => plain c (List.mem_cons_of_mem _ mem)]
    cases quoted after delimiter rest <;> rfl

/-- A literal whose bytes are escaped is read up to its closing quote. A byte that is not escaped is
written as the character with its number, and what is read are the bytes of that character. -/
theorem quoted_encode_spell (after : Char) {delimiter : UInt8}
    (quote : delimiter = 0x27 ∨ delimiter = 0x22) (bytes rest : List UInt8) :
    quoted after delimiter (Utf8.encode (bytes.flatMap Escape.spell) ++ delimiter :: rest) =
      .ok (Utf8.encode (bytes.map ofByte), rest) := by
  induction bytes with
  | nil => exact quoted_close (by rcases quote with rfl | rfl <;> decide) rest
  | cons b bytes ih =>
    rw [List.flatMap_cons, Utf8.encode_append, List.append_assoc]
    obtain ⟨m, marked, spelled⟩ | ⟨unmarked, spelled⟩ := Escape.spell_cases b
    · obtain ⟨ascii, -, low, resolved⟩ := Escape.resolve?_of_mark? marked
      have escaped : Utf8.encode ['\\', m] = [0x5C, toByte m] := by
        rw [Utf8.encode_cons_ascii (by decide), Utf8.encode_cons_ascii ascii]
        rfl
      rw [spelled, escaped, List.cons_append, List.singleton_append, quoted_escape resolved, ih,
        List.map_cons, Utf8.encode_cons_ascii (isAscii_ofByte low), toByte_ofByte]
      rfl
    · obtain ⟨-, backslash, single, double⟩ := Escape.ne_of_mark? unmarked
      -- The bytes of a character are a quote or a backslash only if the character is.
      have other {c : Char} (ascii : IsAscii c) (ne : b ≠ toByte c) :
          toByte c ∉ String.utf8EncodeChar (ofByte b) :=
        Utf8.toByte_not_mem_encodeChar ascii fun same => ne ((ofByte_eq_iff ascii).1 same)
      have plain : ∀ d ∈ String.utf8EncodeChar (ofByte b), d ≠ 0x5C ∧ d ≠ delimiter := by
        intro d mem
        refine ⟨?_, ?_⟩
        · rintro rfl
          exact other (c := '\\') (by decide) backslash mem
        · rintro rfl
          rcases quote with rfl | rfl
          · exact other (c := '\'') (by decide) single mem
          · exact other (c := '"') (by decide) double mem
      have one : Utf8.encode [ofByte b] = String.utf8EncodeChar (ofByte b) := by
        rw [Utf8.encode, List.flatMap_singleton]
      rw [spelled, one, quoted_append plain, ih]
      rfl

/-- The bytes of ASCII characters are read back. -/
theorem quoted_spell (after : Char) {delimiter : UInt8}
    (quote : delimiter = 0x27 ∨ delimiter = 0x22) {bytes : List UInt8}
    (ascii : ∀ b ∈ bytes, b.toNat < 128) (rest : List UInt8) :
    quoted after delimiter ((bytes.flatMap Escape.spell).map toByte ++ delimiter :: rest) =
      .ok (bytes, rest) := by
  have written : ∀ c ∈ bytes.flatMap Escape.spell, IsAscii c := by
    intro c mem
    obtain ⟨b, inside, mem⟩ := List.mem_flatMap.1 mem
    exact Escape.isAscii_of_mem_spell (ascii b inside) mem
  rw [← Utf8.encode_ascii written, quoted_encode_spell after quote, Utf8.encode_ofByte ascii]

/-! ## Spellings -/

/-- What may follow a word: nothing, or a space. -/
def Stops (rest : List UInt8) : Prop := rest = [] ∨ ∃ more, rest = 0x20 :: more

/-- The text is read as the token wherever it ends. -/
structure Spells (text : List Char) (t : Token) : Prop where
  clean : ∀ c ∈ text, IsAscii c ∧ c ≠ '\n'
  read (after : Char) (rest : List UInt8) (stops : Stops rest) :
    tokens after (text.map toByte ++ rest) = (t :: (tokens after rest).1, (tokens after rest).2)

/-- The text is read as the tokens, to its end. -/
structure SpellsAll (text : List Char) (ts : List Token) : Prop where
  clean : ∀ c ∈ text, IsAscii c ∧ c ≠ '\n'
  read (after : Char) : tokens after (text.map toByte) = (ts, none)

theorem tokens_of_scan {after : Char} {b : UInt8} {rest r : List UInt8} {t : Token}
    (start : isBlank b = false ∧ ofByte b ≠ ';') (h : scan after b rest = .ok (t, r)) :
    tokens after (b :: rest) = (t :: (tokens after r).1, (tokens after r).2) := by
  rw [tokens, start.1, if_neg Bool.false_ne_true, if_neg start.2]
  split
  · simp_all
  · simp_all

/-- A fault ends the tokens. -/
theorem tokens_of_scan_error {after : Char} {b : UInt8} {rest : List UInt8} {cause : Cause}
    (start : isBlank b = false ∧ ofByte b ≠ ';') (h : scan after b rest = .error cause) :
    tokens after (b :: rest) = ([], some cause) := by
  rw [tokens, start.1, if_neg Bool.false_ne_true, if_neg start.2]
  split
  · simp_all
  · simp_all

/-- The parts of a text before and after the point where a class of characters ends. -/
theorem span_of_ends {p : UInt8 → Bool} {word rest : List UInt8} (all : ∀ b ∈ word, p b)
    (ends : ∀ b ∈ rest.head?, p b = false) :
    (word ++ rest).takeWhile p = word ∧ (word ++ rest).dropWhile p = rest := by
  rw [List.takeWhile_append_of_pos all, List.dropWhile_append_of_pos all]
  cases rest with
  | nil => simp
  | cons b rest => simp [ends b rfl]

/-- A class of characters without the space ends there. -/
theorem Stops.not_of_head {p : UInt8 → Bool} {rest : List UInt8} {b : UInt8} (stops : Stops rest)
    (space : p 0x20 = false) (head : b ∈ rest.head?) : p b = false := by
  obtain rfl | ⟨more, rfl⟩ := stops
  · cases head
  · cases head
    exact space

theorem Spells.all {text : List Char} {t : Token} (h : Spells text t) : SpellsAll text [t] where
  clean := h.clean
  read after := by
    have := h.read after [] (.inl rfl)
    simpa [tokens] using this

theorem Spells.cons {text more : List Char} {t : Token} {ts : List Token} (h : Spells text t)
    (rest : SpellsAll more ts) : SpellsAll (text ++ ' ' :: more) (t :: ts) where
  clean c mem := by
    rcases List.mem_append.1 mem with mem | mem
    · exact h.clean c mem
    rcases List.mem_cons.1 mem with rfl | mem
    · decide
    · exact rest.clean c mem
  read after := by
    have space : toByte ' ' = 0x20 := rfl
    have blank : tokens after (0x20 :: more.map toByte) = (ts, none) := by
      rw [tokens, if_pos (by decide), rest.read]
    rw [List.map_append, List.map_cons, space, h.read after _ (.inr ⟨_, rfl⟩), blank]

/-! ## Words -/

/-- A letter or an underscore, and then letters, digits and underscores. -/
structure IsWordText (text : List Char) : Prop where
  start : ∃ c more, text = c :: more ∧ (c.isAlpha ∨ c = '_')
  all : ∀ c ∈ text, IsAscii c ∧ (c.isAlphanum ∨ c = '_')

/-- The check of a word, character by character. -/
def isWordText (text : List Char) : Bool :=
  (text.head?.any fun c => c.isAlpha || c == '_') &&
    text.all fun c => decide (IsAscii c ∧ (c.isAlphanum ∨ c = '_'))

theorem IsWordText.of_check {text : List Char} (h : isWordText text) : IsWordText text := by
  unfold isWordText at h
  rw [Bool.and_eq_true, List.all_eq_true] at h
  obtain ⟨start, all⟩ := h
  constructor
  · cases text with
    | nil => simp at start
    | cons c more => exact ⟨c, more, rfl, by simpa using start⟩
  · exact fun c mem => of_decide_eq_true (all c mem)

theorem word_start {c : Char} (ascii : IsAscii c) (h : c.isAlpha ∨ c = '_') :
    isBlank (toByte c) = false ∧ c ≠ ';' ∧ c ≠ '"' ∧ c ≠ '\'' ∧ c ≠ ':' ∧
      (c.isDigit || c = '-') = false := by
  revert h
  exact ascii.of_forall (p := fun c => c.isAlpha ∨ c = '_' → isBlank (toByte c) = false ∧ c ≠ ';' ∧
    c ≠ '"' ∧ c ≠ '\'' ∧ c ≠ ':' ∧ (c.isDigit || c = '-') = false) (by decide)

/-- A word is read as far as it goes. -/
theorem scan_word {after c : Char} {more : List Char} {rest : List UInt8}
    (h : IsWordText (c :: more)) (ends : ∀ b ∈ rest.head?, isWord b = false) :
    scan after (toByte c) (more.map toByte ++ rest) =
      .ok (.ofWord (String.ofList (c :: more)), rest) := by
  obtain ⟨_, _, split, start⟩ := h.start
  obtain ⟨rfl, rfl⟩ := List.cons.inj split
  have ascii : ∀ d ∈ c :: more, IsAscii d := fun d mem => (h.all d mem).1
  have same := ofByte_toByte (ascii c List.mem_cons_self)
  have word : ∀ b ∈ more.map toByte, isWord b := by
    intro b mem
    obtain ⟨d, inside, rfl⟩ := List.mem_map.1 mem
    obtain ⟨ascii, word⟩ := h.all d (List.mem_cons_of_mem _ inside)
    simpa [isWord, ofByte_toByte ascii] using word
  obtain ⟨-, -, double, single, colon, digit⟩ := word_start (ascii c List.mem_cons_self) start
  obtain ⟨before, behind⟩ := span_of_ends word ends
  unfold scan
  simp only [same, double, single, colon, digit, if_false, before, behind]
  rw [if_neg Bool.false_ne_true, if_pos (by simpa using start), asciiText, List.map_cons, same]
  exact congrArg (fun text => Except.ok (Token.ofWord (String.ofList (c :: text)), rest))
    (asciiText_map_toByte fun d mem => ascii d (List.mem_cons_of_mem _ mem))

theorem IsWordText.spells {text : List Char} (h : IsWordText text) :
    Spells text (Token.ofWord (String.ofList text)) := by
  obtain ⟨c, more, rfl, start⟩ := h.start
  have ascii : IsAscii c := (h.all c List.mem_cons_self).1
  obtain ⟨blank, semicolon, -⟩ := word_start ascii start
  constructor
  · refine fun d mem => ⟨(h.all d mem).1, ?_⟩
    rintro rfl
    have := (h.all _ mem).2
    simp at this
  · intro after rest stops
    rw [List.map_cons, List.cons_append]
    refine tokens_of_scan ⟨blank, by rwa [ofByte_toByte ascii]⟩ ?_
    exact scan_word h fun b head => stops.not_of_head (by decide) head

/-! ## Numbers -/

/-- A digit or a sign, and then letters and digits. -/
structure IsNumberText (text : List Char) : Prop where
  start : ∃ c more, text = c :: more ∧ (c.isDigit ∨ c = '-') ∧ ∀ d ∈ more, d.isAlphanum
  ascii : ∀ c ∈ text, IsAscii c

theorem number_start {c : Char} (ascii : IsAscii c) (h : c.isDigit ∨ c = '-') :
    isBlank (toByte c) = false ∧ c ≠ ';' ∧ c ≠ '"' ∧ c ≠ '\'' ∧ c ≠ ':' ∧ c ≠ '\n' := by
  revert h
  exact ascii.of_forall (p := fun c => c.isDigit ∨ c = '-' → isBlank (toByte c) = false ∧ c ≠ ';' ∧
    c ≠ '"' ∧ c ≠ '\'' ∧ c ≠ ':' ∧ c ≠ '\n') (by decide)

/-- A number is read as far as it goes, with underscores and all. -/
theorem scan_number {after c : Char} {more : List Char} {rest : List UInt8}
    (start : c.isDigit ∨ c = '-') (ascii : ∀ d ∈ c :: more, IsAscii d)
    (inside : ∀ d ∈ more, d.isAlphanum ∨ d = '_') (ends : ∀ b ∈ rest.head?, isNumber b = false) :
    scan after (toByte c) (more.map toByte ++ rest) =
      (numberToken (c :: more)).map fun t => (t, rest) := by
  have same := ofByte_toByte (ascii c List.mem_cons_self)
  obtain ⟨-, -, double, single, colon, -⟩ := number_start (ascii c List.mem_cons_self) start
  have number : ∀ b ∈ more.map toByte, isNumber b := by
    intro b mem
    obtain ⟨d, among, rfl⟩ := List.mem_map.1 mem
    have word := inside d among
    simp [isNumber, isWord, ofByte_toByte (ascii d (List.mem_cons_of_mem _ among)), word]
  obtain ⟨before, behind⟩ := span_of_ends number ends
  have whole : asciiText (toByte c :: more.map toByte) = c :: more := by
    rw [← List.map_cons]
    exact asciiText_map_toByte ascii
  unfold scan
  simp only [same, double, single, colon, if_false, before, behind]
  rw [if_pos (by simpa using start), whole]
  cases numberToken (c :: more) <;> rfl

theorem IsNumberText.spells {text : List Char} {t : Token} (h : IsNumberText text)
    (number : number? text = some t) : Spells text t := by
  obtain ⟨c, more, rfl, start, alphanum⟩ := h.start
  have ascii := h.ascii
  obtain ⟨blank, semicolon, -, -, -, feed⟩ := number_start (ascii c List.mem_cons_self) start
  constructor
  · refine fun d mem => ⟨ascii d mem, ?_⟩
    rcases List.mem_cons.1 mem with rfl | mem
    · exact feed
    · rintro rfl
      have := alphanum _ mem
      simp at this
  · intro after rest stops
    rw [List.map_cons, List.cons_append]
    refine tokens_of_scan ⟨blank, by rwa [ofByte_toByte (ascii c List.mem_cons_self)]⟩ ?_
    rw [scan_number start ascii (fun d mem => .inl (alphanum d mem))
      fun b head => stops.not_of_head (by decide) head, numberToken, number]
    rfl

/-- Letters and digits are neither skipped nor points. -/
theorem plain_of_alphanum {digits : List Char} (h : ∀ c ∈ digits, c.isAlphanum) :
    digits.filter (· != '_') = digits ∧ digits.contains '.' = false := by
  constructor
  · rw [List.filter_eq_self]
    intro c mem
    rw [bne_iff_ne]
    rintro rfl
    exact absurd (h _ mem) (by decide)
  · rw [List.contains_eq_mem, decide_eq_false_iff_not]
    intro mem
    exact absurd (h _ mem) (by decide)

theorem number?_of_alphanum {digits : List Char} (h : ∀ c ∈ digits, c.isAlphanum) :
    number? digits = (natural? digits).map fun n => .number (.ofNat n) := by
  obtain ⟨filter, point⟩ := plain_of_alphanum h
  unfold number?
  split
  rename_i negative unsigned parts
  split at parts
  · exact absurd (h '-' (by simp)) (by decide)
  · cases parts
    simp only [filter, point]
    rfl

theorem number?_minus {digits : List Char} (h : ∀ c ∈ digits, c.isAlphanum) :
    number? ('-' :: digits) = (natural? digits).map fun n => .number (.ofInt (-(n : Int))) := by
  obtain ⟨filter, point⟩ := plain_of_alphanum h
  unfold number?
  simp only [filter, point]
  rfl

theorem natural?_decimal (n : Nat) (lt : n < 2 ^ 64) :
    natural? (Nat.toDigits 10 n) = some n := by
  have digit : ∀ c ∈ Nat.toDigits 10 n, c.isDigit := fun c =>
    Nat.isDigit_of_mem_toDigits (by decide) (by decide)
  have read := Numeral.word?_toDigits 10 (by decide) (by decide) lt
  unfold natural?
  split
  · rename_i eq
    exact absurd (digit 'x' (by simp [eq])) (by decide)
  · rename_i eq
    exact absurd (digit 'b' (by simp [eq])) (by decide)
  · exact read

theorem natural?_hex (n : Nat) (lt : n < 2 ^ 64) :
    natural? ('0' :: 'x' :: Nat.toDigits 16 n) = some n :=
  Numeral.word?_toDigits 16 (by decide) (by decide) lt

theorem alphanum_toDigits (radix : Nat) (large : 1 < radix) (small : radix ≤ 16) (n : Nat) :
    ∀ c ∈ Nat.toDigits radix n, IsAscii c ∧ c.isAlphanum := by
  have each : ∀ d < 16, IsAscii (Nat.digitChar d) ∧ (Nat.digitChar d).isAlphanum := by decide
  exact Numeral.forall_mem_toDigits radix large (p := fun c => IsAscii c ∧ c.isAlphanum)
    (fun d lt => each d (Nat.lt_of_lt_of_le lt small)) n

theorem spells_decimal (n : Nat) (lt : n < 2 ^ 64) :
    Spells (Nat.toDigits 10 n) (.number (.ofNat n)) := by
  have alphanum := alphanum_toDigits 10 (by decide) (by decide) n
  have digit : ∀ c ∈ Nat.toDigits 10 n, c.isDigit := fun c =>
    Nat.isDigit_of_mem_toDigits (by decide) (by decide)
  refine IsNumberText.spells ⟨?_, fun c mem => (alphanum c mem).1⟩ ?_
  · obtain ⟨c, more, eq⟩ := List.exists_cons_of_ne_nil (Nat.toDigits_ne_nil (b := 10) (n := n))
    refine ⟨c, more, eq, .inl (digit c (by simp [eq])), fun d mem => (alphanum d ?_).2⟩
    rw [eq]
    exact List.mem_cons_of_mem _ mem
  · rw [number?_of_alphanum fun c mem => (alphanum c mem).2, natural?_decimal n lt]
    rfl

theorem spells_minus (n : Nat) (lt : n < 2 ^ 64) :
    Spells ('-' :: Nat.toDigits 10 n) (.number (.ofInt (-(n : Int)))) := by
  have alphanum := alphanum_toDigits 10 (by decide) (by decide) n
  refine IsNumberText.spells ⟨⟨_, _, rfl, .inr rfl, fun d mem => (alphanum d mem).2⟩, ?_⟩ ?_
  · intro c mem
    rcases List.mem_cons.1 mem with rfl | mem
    · decide
    · exact (alphanum c mem).1
  · rw [number?_minus fun c mem => (alphanum c mem).2, natural?_decimal n lt]
    rfl

theorem spells_hex (n : Nat) (lt : n < 2 ^ 64) :
    Spells ('0' :: 'x' :: Nat.toDigits 16 n) (.number (.ofNat n)) := by
  have alphanum : ∀ c ∈ '0' :: 'x' :: Nat.toDigits 16 n, IsAscii c ∧ c.isAlphanum := by
    intro c mem
    rcases List.mem_cons.1 mem with rfl | mem
    · decide
    rcases List.mem_cons.1 mem with rfl | mem
    · decide
    · exact alphanum_toDigits 16 (by decide) (by decide) n c mem
  refine IsNumberText.spells ⟨⟨_, _, rfl, .inl (by decide), fun d mem => ?_⟩, ?_⟩ ?_
  · exact (alphanum d (List.mem_cons_of_mem _ mem)).2
  · exact fun c mem => (alphanum c mem).1
  · rw [number?_of_alphanum fun c mem => (alphanum c mem).2, natural?_hex n lt]
    rfl

/-! ## Literals between quotes -/

theorem clean_quoted (quote : Char) {bytes : List UInt8} (start : IsAscii quote ∧ quote ≠ '\n')
    (ascii : ∀ b ∈ bytes, b.toNat < 128) :
    ∀ c ∈ quote :: (bytes.flatMap Escape.spell ++ [quote]), IsAscii c ∧ c ≠ '\n' := by
  intro c mem
  rw [List.mem_cons, List.mem_append, List.mem_singleton] at mem
  rcases mem with rfl | mem | rfl
  · exact start
  · obtain ⟨b, inside, mem⟩ := List.mem_flatMap.1 mem
    exact ⟨Escape.isAscii_of_mem_spell (ascii b inside) mem, Escape.ne_of_mem_spell mem⟩
  · exact start

theorem spells_text {bytes : List UInt8} (ascii : ∀ b ∈ bytes, b.toNat < 128) :
    Spells ('"' :: (bytes.flatMap Escape.spell ++ ['"'])) (.text bytes) where
  clean := clean_quoted '"' (by decide) ascii
  read after rest _ := by
    rw [List.map_cons, List.map_append, List.cons_append, List.append_assoc]
    refine tokens_of_scan (by decide) ?_
    unfold scan
    rw [if_pos (by decide)]
    exact bind_eq_ok_iff.2 ⟨_, quoted_spell after (.inr rfl) ascii rest, rfl⟩

theorem spells_char {b : UInt8} (ascii : b.toNat < 128) :
    Spells ('\'' :: (Escape.spell b ++ ['\''])) (.char b) where
  clean := by
    have single : ∀ c ∈ [b], c.toNat < 128 := by simpa using ascii
    simpa using clean_quoted '\'' (by decide) single
  read after rest _ := by
    rw [List.map_cons, List.map_append, List.cons_append, List.append_assoc]
    refine tokens_of_scan (by decide) ?_
    have single : ∀ c ∈ [b], c.toNat < 128 := by simpa using ascii
    have read := quoted_spell after (.inl rfl) single rest
    rw [List.flatMap_singleton] at read
    unfold scan
    rw [if_neg (by decide), if_pos (by decide)]
    exact bind_eq_ok_iff.2 ⟨_, read, rfl⟩

end StackLang.Assembly.Row
