import Mathlib.Data.Nat.Digits.Defs
import StackLang.Proofs.Source.Spellings
import StackLang.Text.View

/-!
# Integers that stop at the greatest one

The readers of integers go through the digits once and stop at the greatest integer with each
product and each sum. What they give is nevertheless the value of all of the digits, cut off once:
an accumulator that has stopped stays where it is. `integers_saturate` proves that of the decimal
integers of a text, of those behind a radix mark, and of `View.toInt`.

The value of a row of digits is the one that the library of naturals gives it, `Nat.ofDigits`.
-/

namespace StackLang.Numeric.Numeral

variable {radix : Nat} {text : List Char}

/-- The longest run of digits that a text starts with. -/
def digitRun (radix : Nat) (text : List Char) : List Char :=
  text.takeWhile fun c => (digit? radix c).isSome

/-- The natural that a row of digits is written for, most significant first. -/
def textValue (radix : Nat) (digits : List Char) : Nat :=
  Nat.ofDigits radix (digits.filterMap (digit? radix)).reverse

theorem value_eq_ofDigits (radix : Nat) (ds : List Nat) :
    value radix ds = Nat.ofDigits radix ds.reverse := by
  have step : (fun n d => n * radix + d) = fun n d => d + radix * n := by
    funext n d
    rw [Nat.mul_comm, Nat.add_comm]
  rw [value, Nat.ofDigits_eq_foldr, List.foldr_reverse, step]
  rfl

theorem leadingDigits_eq (radix : Nat) (text : List Char) :
    leadingDigits radix text = (digitRun radix text).filterMap (digit? radix) := by
  induction text with
  | nil => rfl
  | cons c rest ih =>
    rw [leadingDigits, digitRun, List.takeWhile_cons]
    cases digit : digit? radix c with
    | none => rfl
    | some d =>
      rw [Option.isSome_some, if_pos rfl, List.filterMap_cons_some digit, ih, digitRun]

theorem digitRun_of_digits (all : ∀ c ∈ text, digit? radix c ≠ none) :
    digitRun radix text = text := by
  apply List.takeWhile_eq_self_iff.2
  intro c mem
  exact Option.isSome_iff_ne_none.2 (all c mem)

/-- Stopping at each step is stopping once. -/
theorem saturating_eq_textValue (positive : 0 < radix) (text : List Char) :
    saturating radix text = min (textValue radix (digitRun radix text)) maxInt64 := by
  rw [saturating_eq positive, value_eq_ofDigits, leadingDigits_eq, Nat.min_comm, textValue]

end StackLang.Numeric.Numeral

namespace StackLang.Source

open Numeric Text

variable {before : List Lexeme} {bytes rest : List UInt8}

/-! ## Places where a lexeme starts -/

/-- The lexemes `before` are read first, and the next one starts with the text. -/
def StartsBehind (before : List Lexeme) (text : List UInt8) : Prop :=
  before <+: (lexemes (before.flatMap Lexeme.bytes ++ text)).1

instance (before : List Lexeme) (text : List UInt8) : Decidable (StartsBehind before text) :=
  inferInstanceAs (Decidable (before <+: _))

/-- Behind the lexemes `before` the integer `n` is read, which is written with the given bytes, and
what is behind it is read as it is read alone. -/
def ReadsInteger (before : List Lexeme) (bytes : List UInt8) (n : Nat) (rest : List UInt8) : Prop :=
  lexemes (before.flatMap Lexeme.bytes ++ (bytes ++ rest)) =
    (before ++ ⟨.token (.integer n), bytes⟩ :: (lexemes rest).1, (lexemes rest).2)

theorem StartsBehind.lexedUpTo {text : List UInt8} (h : StartsBehind before text) :
    LexedUpTo (before.flatMap Lexeme.bytes ++ text) before text := by
  obtain ⟨more, read⟩ := h
  obtain ⟨behind, lexed, -⟩ := exists_lexedUpTo (Prod.ext read.symm rfl)
  have same := List.append_cancel_left lexed.flatMap_bytes
  rwa [same] at lexed

theorem StartsBehind.readsInteger {n : Nat} (h : StartsBehind before (bytes ++ rest))
    (spelled : Lexeme.Spells (.token (.integer n)) bytes rest) :
    ReadsInteger before bytes n rest := by
  have read := (h.lexedUpTo.snoc (x := ⟨_, bytes⟩) spelled).lexemes_eq
  rwa [List.append_assoc, List.singleton_append] at read

/-! ## Spellings of integers -/

namespace Lexeme

theorem isNumber_of_isDigit {b : UInt8} (digit : isDigit b) : isNumber b := by
  simp [isNumber, digit]

/-- No digit is a point or marks a radix. -/
theorem plain_of_isDigit {b : UInt8} (digit : isDigit b) : ofByte b ≠ '.' ∧ radix? b = none := by
  revert digit
  exact forall_byte (p := fun b => isDigit b → ofByte b ≠ '.' ∧ radix? b = none)
    (by decide +kernel) b

theorem radix?_eq_none_iff {b : UInt8} : radix? b = none ↔ ofByte b ≠ 'x' ∧ ofByte b ≠ 'b' := by
  unfold radix?
  split
  · simp [*]
  · split <;> simp [*]

/-- A row of digits, which no point and no radix mark makes something else. -/
theorem spells_digits (nonempty : bytes ≠ []) (all : ∀ b ∈ bytes, isDigit b)
    (ends : StopsAt isNumber rest)
    (unmarked : bytes = [toByte '0'] → ∀ b ∈ rest.head?, ofByte b ≠ 'x' ∧ ofByte b ≠ 'b') :
    Spells (.token (.integer (min (Numeral.textValue 10 (asciiText bytes)) maxInt64)))
      bytes rest := by
  obtain ⟨first, more, rfl⟩ := List.exists_cons_of_ne_nil nonempty
  have ⟨digit, digits⟩ := List.forall_mem_cons.1 all
  have token : decimalToken (asciiText (first :: more)) =
      .integer (min (Numeral.textValue 10 (asciiText (first :: more))) maxInt64) := by
    have noPoint : '.' ∉ asciiText (first :: more) := by
      intro mem
      obtain ⟨b, inside, point⟩ := List.mem_map.1 mem
      exact (plain_of_isDigit (all b inside)).1 point
    have run : ∀ c ∈ asciiText (first :: more), Numeral.digit? 10 c ≠ none := by
      intro c mem
      obtain ⟨b, inside, rfl⟩ := List.mem_map.1 mem
      exact isDigit_iff.1 (all b inside)
    rw [decimalToken, if_neg (by simpa using noPoint),
      Numeral.saturating_eq_textValue (by decide), Numeral.digitRun_of_digits run]
  rw [← token]
  apply Spells.decimal digit
  · exact fun b mem => isNumber_of_isDigit (digits b mem)
  · exact ends
  · intro zero
    obtain rfl := (ofByte_eq_iff (by decide)).1 zero
    cases more with
    | nil =>
      apply Option.bind_eq_none_iff.2
      intro b mem
      exact radix?_eq_none_iff.2 (unmarked rfl b mem)
    | cons b more => exact (plain_of_isDigit (digits b List.mem_cons_self)).2

/-- A zero and a radix mark, and what of the bytes behind them is a number. -/
theorem spells_marked {mark : Char} {radix : Nat} {more : List UInt8}
    (marked : (mark, radix) ∈ [('x', 16), ('b', 2)]) (all : ∀ b ∈ more, isWord b)
    (ends : StopsAt isWord rest) :
    Spells (.token (.integer (min (Numeral.textValue radix
        (Numeral.digitRun radix ((asciiText more).filter (· != '_')))) maxInt64)))
      (toByte '0' :: toByte mark :: more) rest := by
  have known : radix? (toByte mark) = some radix ∧ 0 < radix := by
    simp only [List.mem_cons, Prod.mk.injEq, List.not_mem_nil, or_false] at marked
    rcases marked with ⟨rfl, rfl⟩ | ⟨rfl, rfl⟩ <;> decide
  have spelled := Spells.radix known.1 all ends
  rwa [radixToken, Numeral.saturating_eq_textValue known.2] at spelled

end Lexeme

/-! ## What is read -/

/-- **Integers stop at the greatest one and are exact up to it.** Where a lexeme starts with digits
that no digit and no point follows, and that are no zero in front of a radix mark, it is the integer
of their value. Where it starts with a zero and a radix mark, it takes the letters, digits and
underscores that follow, and is the integer of the digits of the radix that they start with,
underscores left out. The integer of a view is that of the digits that it starts with. Each is cut
off at the greatest integer. -/
theorem integers_saturate :
    (∀ before digits rest, StartsBehind before (digits ++ rest) → digits ≠ [] →
      (∀ b ∈ digits, Lexeme.isDigit b) → Lexeme.StopsAt Lexeme.isNumber rest →
      (digits = [toByte '0'] → ∀ b ∈ rest.head?, ofByte b ≠ 'x' ∧ ofByte b ≠ 'b') →
      ReadsInteger before digits
        (min (Numeral.textValue 10 (asciiText digits)) (2 ^ 63 - 1)) rest) ∧
    (∀ before mark radix more rest, (mark, radix) ∈ [('x', 16), ('b', 2)] →
      StartsBehind before (toByte '0' :: toByte mark :: more ++ rest) →
      (∀ b ∈ more, isWord b) → Lexeme.StopsAt isWord rest →
      ReadsInteger before (toByte '0' :: toByte mark :: more)
        (min (Numeral.textValue radix
          (Numeral.digitRun radix ((asciiText more).filter (· != '_')))) (2 ^ 63 - 1)) rest) ∧
    ∀ v : View, v.toInt = min (Numeral.textValue 10 (Numeral.digitRun 10 v.chars)) (2 ^ 63 - 1) := by
  refine ⟨?_, ?_, ?_⟩
  · intro before digits rest starts nonempty all ends unmarked
    exact starts.readsInteger (Lexeme.spells_digits nonempty all ends unmarked)
  · intro before mark radix more rest marked starts all ends
    exact starts.readsInteger (Lexeme.spells_marked marked all ends)
  · intro v
    exact Numeral.saturating_eq_textValue (by decide) v.chars

/-- One more than the greatest integer in front of a word, and `0x_F_fg` at the end of a text. -/
theorem integers_saturate_limits :
    let space : List Lexeme := [⟨.blank, [toByte ' ']⟩]
    let digits := "9223372036854775808".toList.map toByte
    let more := "_F_fg".toList.map toByte
    (StartsBehind space (digits ++ [toByte 'x']) ∧ digits ≠ [] ∧
      (∀ b ∈ digits, Lexeme.isDigit b) ∧ Lexeme.StopsAt Lexeme.isNumber [toByte 'x'] ∧
      digits ≠ [toByte '0'] ∧ ReadsInteger space digits (2 ^ 63 - 1) [toByte 'x']) ∧
    (StartsBehind [] (toByte '0' :: toByte 'x' :: more ++ []) ∧ (∀ b ∈ more, isWord b) ∧
      Lexeme.StopsAt isWord [] ∧
      ReadsInteger [] (toByte '0' :: toByte 'x' :: more) 255 []) ∧
    (View.ofString "007.5").toInt = 7 := by
  intro space digits more
  obtain ⟨decimal, marked, view⟩ := integers_saturate
  refine ⟨?_, ?_, ?_⟩
  · have starts : StartsBehind space (digits ++ [toByte 'x']) := by decide +kernel
    have all : ∀ b ∈ digits, Lexeme.isDigit b := by decide +kernel
    have ends : Lexeme.StopsAt Lexeme.isNumber [toByte 'x'] := by
      rintro b ⟨⟩
      decide
    have many : digits ≠ [toByte '0'] := by decide
    refine ⟨starts, by decide, all, ends, many, ?_⟩
    have value : min (Numeral.textValue 10 (asciiText digits)) (2 ^ 63 - 1) = 2 ^ 63 - 1 := by
      decide +kernel
    rw [← value]
    exact decimal space digits _ starts (by decide) all ends fun zero => absurd zero many
  · have starts : StartsBehind [] (toByte '0' :: toByte 'x' :: more ++ []) := List.nil_prefix
    have all : ∀ b ∈ more, isWord b := by decide +kernel
    have ends : Lexeme.StopsAt isWord [] := nofun
    refine ⟨starts, all, ends, ?_⟩
    have value : min (Numeral.textValue 16 (Numeral.digitRun 16
        ((asciiText more).filter (· != '_')))) (2 ^ 63 - 1) = 255 := by
      decide +kernel
    rw [← value]
    exact marked [] 'x' 16 more [] (by decide) starts all ends
  · rw [view]
    decide +kernel

end StackLang.Source
