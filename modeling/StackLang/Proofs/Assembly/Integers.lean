import StackLang.Proofs.Assembly.Spelling

/-!
# Integers of any size and radix

An integer is written in one of three radices, with underscores wherever one likes and zeros in
front, and with a sign. Up to 64 bits it stands for the word of its residue, read as a signed
integer; a greater one is a fault and no other number. So each word can be written, both by its bits
and as the signed integer that it is.
-/

namespace StackLang

/-! ## Residues -/

namespace Word

theorem ofInt_natCast (n : Nat) : ofInt n = ofNat n := by
  rw [← toNat_inj, ofInt, toNat_ofNat, toNat_ofNat]
  omega

/-- The signed integer of a word is the least residue around zero. -/
theorem toInt_ofInt_eq_bmod (n : Int) : (ofInt n).toInt = n.bmod (2 ^ 64) := by
  unfold toInt ofInt
  rw [toNat_ofNat, Int.bmod_def]
  omega

end Word

namespace Assembly

open Numeric Text

/-! ## Spellings of integers -/

/-- The radices that integers are written in. -/
inductive Radix where
  | decimal | hexadecimal | binary
deriving DecidableEq, Repr

namespace Radix

/-- How many digits there are. -/
def base : Radix → Nat
  | decimal => 10
  | hexadecimal => 16
  | binary => 2

/-- The mark in front of the digits. -/
def mark : Radix → List Char
  | decimal => []
  | hexadecimal => ['0', 'x']
  | binary => ['0', 'b']

/-- The text writes the natural `n`: but for underscores behind its first character it is the mark
of the radix and digits of `n`, most significant first. -/
structure Writes (r : Radix) (n : Nat) (text : List Char) : Prop where
  start : text.head? ≠ some '_'
  digits : ∃ digits ds, text.filter (· != '_') = r.mark ++ digits ∧ digits ≠ [] ∧
    digits.map (Numeral.digit? r.base) = ds.map some ∧ Numeral.value r.base ds = n

end Radix

/-- The sign in front of an integer. -/
def sign (negative : Bool) : List Char := if negative then ['-'] else []

/-- An integer by its sign and its size. -/
def signed (negative : Bool) (n : Nat) : Int := if negative then -n else n

namespace Radix

variable {r : Radix} {n : Nat} {text : List Char}

theorem base_bounds (r : Radix) : 1 < r.base ∧ r.base ≤ 16 := by
  cases r <;> decide

theorem alphanum_of_mem_mark {c : Char} (mem : c ∈ r.mark) : IsAscii c ∧ c.isAlphanum := by
  cases r with
  | decimal => cases mem
  | _ =>
    simp only [mark, List.mem_cons, List.not_mem_nil, or_false] at mem
    rcases mem with rfl | rfl <;> decide

theorem alphanum_of_digit? {radix d : Nat} {c : Char} (h : Numeral.digit? radix c = some d) :
    IsAscii c ∧ c.isAlphanum := by
  have range : '0' ≤ c ∧ c ≤ '9' ∨ 'a' ≤ c ∧ c ≤ 'z' ∨ 'A' ≤ c ∧ c ≤ 'Z' := by
    unfold Numeral.digit? at h
    split at h
    · rename_i digit
      exact .inl (by simpa using digit)
    split at h
    · rename_i lower
      exact .inr (.inl (by simpa using lower))
    split at h
    · rename_i upper
      exact .inr (.inr (by simpa using upper))
    · cases h
  have ascii : IsAscii c := by
    have below {last : Char} (le : c ≤ last) (small : last.toNat < 128) : IsAscii c :=
      Nat.lt_of_le_of_lt (UInt32.le_iff_toNat_le.1 (Char.le_def.1 le)) small
    obtain ⟨-, le⟩ | ⟨-, le⟩ | ⟨-, le⟩ := range
    · exact below le (by decide)
    · exact below le (by decide)
    · exact below le (by decide)
  refine ⟨ascii, ?_⟩
  revert range
  exact ascii.of_forall (p := fun c => ('0' ≤ c ∧ c ≤ '9' ∨ 'a' ≤ c ∧ c ≤ 'z' ∨
    'A' ≤ c ∧ c ≤ 'Z') → c.isAlphanum) (by decide)

/-- What the text of an integer is made of. -/
theorem Writes.chars (h : r.Writes n text) :
    ∀ c ∈ text, IsAscii c ∧ (c.isAlphanum ∨ c = '_') := by
  obtain ⟨digits, ds, kept, -, read, -⟩ := h.digits
  intro c mem
  by_cases same : c = '_'
  · subst same
    exact ⟨by decide, .inr rfl⟩
  have inside : c ∈ r.mark ++ digits := by
    rw [← kept, List.mem_filter]
    exact ⟨mem, by simpa using same⟩
  rw [List.mem_append] at inside
  obtain inside | inside := inside
  · exact (alphanum_of_mem_mark inside).imp_right .inl
  · have digit : Numeral.digit? r.base c ∈ ds.map some := read ▸ List.mem_map_of_mem inside
    obtain ⟨d, -, digit⟩ := List.mem_map.1 digit
    exact (alphanum_of_digit? digit.symm).imp_right .inl

/-- An integer starts with a digit. -/
theorem Writes.exists_digit (h : r.Writes n text) :
    ∃ c more, text = c :: more ∧ c.isDigit := by
  obtain ⟨digits, ds, kept, nonempty, read, -⟩ := h.digits
  have whole : r.mark ++ digits ≠ [] := List.append_ne_nil_of_right_ne_nil _ nonempty
  obtain _ | ⟨c, more⟩ := text
  · exact absurd kept.symm whole
  refine ⟨c, more, rfl, ?_⟩
  have ordinary : c ≠ '_' := fun same => h.start (by rw [same]; rfl)
  rw [List.filter_cons_of_pos (by simpa using ordinary)] at kept
  cases r with
  | decimal =>
    -- Without a mark the first character is a digit of the radix ten.
    obtain _ | ⟨d, ds⟩ := ds
    · exact absurd (List.map_eq_nil_iff.1 read) nonempty
    rw [mark, List.nil_append] at kept
    rw [← kept, List.map_cons, List.map_cons] at read
    have digit : Numeral.digit? 10 c = some d := (List.cons.inj read).1
    have each := (alphanum_of_digit? digit).1.of_forall
      (p := fun c => (Numeral.digit? 10 c).isSome → c.isDigit) (by decide)
    exact each (by rw [digit]; rfl)
  | hexadecimal =>
    cases (List.cons.inj kept).1
    decide
  | binary =>
    cases (List.cons.inj kept).1
    decide

/-- Every natural is written in every radix. -/
theorem writes_toDigits (r : Radix) (n : Nat) : r.Writes n (r.mark ++ Nat.toDigits r.base n) := by
  obtain ⟨large, small⟩ := r.base_bounds
  have alphanum : ∀ c ∈ r.mark ++ Nat.toDigits r.base n, c.isAlphanum := by
    intro c mem
    obtain mem | mem := List.mem_append.1 mem
    · exact (alphanum_of_mem_mark mem).2
    · exact (Row.alphanum_toDigits r.base large small n c mem).2
  obtain ⟨ds, digits, lt, valued⟩ := Numeral.exists_digits large n
  refine ⟨fun head => ?_, Nat.toDigits r.base n, ds, (Row.plain_of_alphanum alphanum).1,
    Nat.toDigits_ne_nil, ?_, valued⟩
  · exact absurd (alphanum '_' (List.mem_of_head? head)) (by decide)
  · rw [digits, List.map_map]
    exact List.map_congr_left fun d mem => Numeral.digit?_digitChar (lt d mem) small

end Radix

/-- A word is the residue of one size or the other, with its sign. -/
theorem exists_signed (w : Word) : ∃ negative n, n < 2 ^ 64 ∧ signed negative n = w.toInt := by
  have bound := w.toNat_lt
  have value : w.toInt = if w.toNat < 2 ^ 63 then (w.toNat : Int) else w.toNat - 2 ^ 64 := rfl
  by_cases negative : w.toInt < 0
  · exact ⟨true, w.toInt.natAbs, by omega, by simp only [signed, if_true]; omega⟩
  · refine ⟨false, w.toInt.natAbs, by omega, ?_⟩
    simp only [signed, Bool.false_eq_true, if_false]
    omega

namespace Row

variable {r : Radix} {n : Nat} {text : List Char}

/-- Behind its mark a numeral is read in the radix of the mark. -/
theorem natural?_mark {digits : List Char} {ds : List Nat} (nonempty : digits ≠ [])
    (read : digits.map (Numeral.digit? r.base) = ds.map some) :
    natural? (r.mark ++ digits) =
      if Numeral.value r.base ds < 2 ^ 64 then some (Numeral.value r.base ds) else none := by
  have word : Numeral.word? r.base digits =
      if Numeral.value r.base ds < 2 ^ 64 then some (Numeral.value r.base ds) else none := by
    rw [Numeral.word?, Numeral.whole?_of_map read nonempty, Option.filter_some]
    simp only [decide_eq_true_eq]
  rw [← word]
  cases r with
  | decimal =>
    -- Neither of the letters in a mark is a digit of the radix ten.
    have digit {c : Char} (mem : c ∈ digits) : Numeral.digit? 10 c ≠ none := by
      have inside : Numeral.digit? 10 c ∈ ds.map some := read ▸ List.mem_map_of_mem mem
      obtain ⟨d, -, same⟩ := List.mem_map.1 inside
      rw [← same]
      exact Option.some_ne_none d
    rw [Radix.mark, List.nil_append]
    unfold natural?
    split
    · exact absurd rfl (digit (c := 'x') (by simp))
    · exact absurd rfl (digit (c := 'b') (by simp))
    · rfl
  | hexadecimal => rfl
  | binary => rfl

/-- The number that a signed integer is read as. -/
theorem numberToken_of_writes (h : r.Writes n text) (negative : Bool) :
    numberToken (sign negative ++ text) =
      if n < 2 ^ 64 then .ok (.number (.ofInt (signed negative n)))
      else .error (.invalidNumber (String.ofList (sign negative ++ text))) := by
  obtain ⟨digits, ds, kept, nonempty, read, rfl⟩ := h.digits
  have point : (text.filter (· != '_')).contains '.' = false := by
    rw [List.contains_eq_mem, decide_eq_false_iff_not]
    intro mem
    exact absurd (h.chars '.' (List.mem_filter.1 mem).1).2 (by decide)
  have number : number? (sign negative ++ text) =
      (natural? (text.filter (· != '_'))).map fun n => .number (.ofInt (signed negative n)) := by
    cases negative with
    | true =>
      unfold number?
      simp only [sign, if_true, List.singleton_append, point]
      rfl
    | false =>
      obtain ⟨c, more, rfl, digit⟩ := h.exists_digit
      have unsigned : c ≠ '-' := by
        rintro rfl
        exact absurd digit (by decide)
      unfold number?
      split
      rename_i negative unsigned' parts
      split at parts
      · rename_i same
        exact absurd (List.cons.inj same).1 unsigned
      · cases parts
        simp only [sign, Bool.false_eq_true, if_false, List.nil_append, point, signed,
          Word.ofInt_natCast]
  rw [numberToken, number, kept, natural?_mark nonempty read]
  by_cases small : Numeral.value r.base ds < 2 ^ 64
  · rw [if_pos small, if_pos small]
    rfl
  · rw [if_neg small, if_neg small]
    rfl

/-- The tokens of a row that starts with an integer, in front of anything that is no part of it. -/
theorem tokens_of_writes (h : r.Writes n text) (negative : Bool) (after : Char) {rest : List UInt8}
    (ends : ∀ b ∈ rest.head?, isNumber b = false) :
    tokens after ((sign negative ++ text).map toByte ++ rest) =
      if n < 2 ^ 64 then
        (.number (.ofInt (signed negative n)) :: (tokens after rest).1, (tokens after rest).2)
      else ([], some (.invalidNumber (String.ofList (sign negative ++ text)))) := by
  obtain ⟨c, more, split, start, ascii, inside⟩ : ∃ c more, sign negative ++ text = c :: more ∧
      (c.isDigit ∨ c = '-') ∧ (∀ d ∈ c :: more, IsAscii d) ∧
      ∀ d ∈ more, d.isAlphanum ∨ d = '_' := by
    have ascii : ∀ d ∈ text, IsAscii d := fun d mem => (h.chars d mem).1
    have inside : ∀ d ∈ text, d.isAlphanum ∨ d = '_' := fun d mem => (h.chars d mem).2
    cases negative with
    | true => exact ⟨'-', text, rfl, .inr rfl, List.forall_mem_cons.2 ⟨by decide, ascii⟩, inside⟩
    | false =>
      obtain ⟨c, more, rfl, digit⟩ := h.exists_digit
      exact ⟨c, more, rfl, .inl digit, ascii, fun d mem => inside d (List.mem_cons_of_mem _ mem)⟩
  have token := numberToken_of_writes h negative
  rw [split] at token ⊢
  obtain ⟨blank, semicolon, -⟩ := number_start (ascii c List.mem_cons_self) start
  rw [← ofByte_toByte (ascii c List.mem_cons_self)] at semicolon
  rw [List.map_cons, List.cons_append]
  by_cases small : n < 2 ^ 64
  · rw [if_pos small] at token ⊢
    refine tokens_of_scan ⟨blank, semicolon⟩ ?_
    rw [scan_number start ascii inside ends, token]
    rfl
  · rw [if_neg small] at token ⊢
    refine tokens_of_scan_error ⟨blank, semicolon⟩ ?_
    rw [scan_number start ascii inside ends, token]
    rfl

/-- A signed integer of 64 bits alone in its row. -/
theorem tokens_of_small (h : r.Writes n text) (small : n < 2 ^ 64) (negative : Bool)
    (after : Char) : tokens after ((sign negative ++ text).map toByte) =
      ([.number (.ofInt (signed negative n))], none) := by
  rw [← ((sign negative ++ text).map toByte).append_nil,
    tokens_of_writes h negative after (by simp), if_pos small]
  simp [tokens]

/-- **Integers.** An integer of up to 64 bits is read as the word of its residue, in front of
anything that is no part of it, and a greater one is a fault. Each word is read from its bits and
from the signed integer that it is, in each radix. -/
theorem tokens_of_integers :
    (∀ {r : Radix} {n : Nat} {text : List Char}, r.Writes n text →
      ∀ (negative : Bool) (after : Char) (rest : List UInt8),
        (∀ b ∈ rest.head?, isNumber b = false) →
        (n < 2 ^ 64 → ∃ w : Word, w.toInt = (signed negative n).bmod (2 ^ 64) ∧
          tokens after ((sign negative ++ text).map toByte ++ rest) =
            (.number w :: (tokens after rest).1, (tokens after rest).2)) ∧
        (2 ^ 64 ≤ n → tokens after ((sign negative ++ text).map toByte ++ rest) =
          ([], some (.invalidNumber (String.ofList (sign negative ++ text)))))) ∧
    ∀ (w : Word) (r : Radix),
      (∃ text, r.Writes w.toNat text ∧
        ∀ after, tokens after (text.map toByte) = ([.number w], none)) ∧
      ∃ negative n text, signed negative n = w.toInt ∧ r.Writes n text ∧
        ∀ after, tokens after ((sign negative ++ text).map toByte) = ([.number w], none) := by
  refine ⟨fun writes negative after rest ends => ⟨fun small => ?_, fun large => ?_⟩,
    fun w r => ⟨?_, ?_⟩⟩
  · refine ⟨_, Word.toInt_ofInt_eq_bmod _, ?_⟩
    rw [tokens_of_writes writes negative after ends, if_pos small]
  · rw [tokens_of_writes writes negative after ends, if_neg (Nat.not_lt.2 large)]
  · refine ⟨_, r.writes_toDigits w.toNat, fun after => ?_⟩
    have read := tokens_of_small (r.writes_toDigits w.toNat) w.toNat_lt false after
    simpa only [sign, signed, Bool.false_eq_true, if_false, List.nil_append, Word.ofInt_natCast,
      Word.ofNat_toNat] using read
  · obtain ⟨negative, n, small, value⟩ := exists_signed w
    refine ⟨negative, n, _, value, r.writes_toDigits n, fun after => ?_⟩
    rw [tokens_of_small (r.writes_toDigits n) small, value, Word.ofInt_toInt]

theorem tokens_of_integers_limits :
    (∃ w : Word, w.toInt = -2 ^ 63 ∧
      tokens '\n' ("0x0_80000000_00000000".toList.map toByte) = ([.number w], none)) ∧
    (∃ w : Word, w.toInt = -0xFF ∧ tokens '\n' ("-0x_fF".toList.map toByte) = ([.number w], none)) ∧
    tokens '\n' ("-18_446_744_073_709_551_616".toList.map toByte) =
      ([], some (.invalidNumber "-18_446_744_073_709_551_616")) := by
  have half : Radix.hexadecimal.Writes (2 ^ 63) "0x0_80000000_00000000".toList := by
    refine ⟨by decide, "08000000000000000".toList, 0 :: 8 :: List.replicate 15 0, ?_⟩
    decide
  have byte : Radix.hexadecimal.Writes 0xFF "0x_fF".toList := by
    refine ⟨by decide, "fF".toList, [15, 15], ?_⟩
    decide
  have large : Radix.decimal.Writes (2 ^ 64) "18_446_744_073_709_551_616".toList := by
    refine ⟨by decide, "18446744073709551616".toList,
      [1, 8, 4, 4, 6, 7, 4, 4, 0, 7, 3, 7, 0, 9, 5, 5, 1, 6, 1, 6], ?_⟩
    decide
  refine ⟨?_, ?_, ?_⟩
  · obtain ⟨w, value, read⟩ := (tokens_of_integers.1 half false '\n' [] (by simp)).1 (by decide)
    exact ⟨w, value.trans (by decide), read.trans (by rw [tokens])⟩
  · obtain ⟨w, value, read⟩ := (tokens_of_integers.1 byte true '\n' [] (by simp)).1 (by decide)
    exact ⟨w, value.trans (by decide), read.trans (by rw [tokens])⟩
  · exact (tokens_of_integers.1 large true '\n' [] (by simp)).2 (Nat.le_refl _)

end Row

end Assembly

end StackLang
