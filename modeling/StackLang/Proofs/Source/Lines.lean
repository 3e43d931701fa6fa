import StackLang.Proofs.Source.Spellings

/-!
# Texts that are read line by line

No lexeme of a sound text reaches over its end: a line feed behind the text ends what the end of the
text ended. So the tokens of a sound text, a line feed and another text are those of the two texts
one behind the other, `kinds_scanText_append`.
-/

namespace StackLang.Source

open Numeric Text

namespace Lexeme

variable {content : Content} {bytes rest : List UInt8}

theorem StopsAt.before_feed {p : UInt8 → Bool} (h : StopsAt p rest) (feed : p lineFeed = false)
    (more : List UInt8) : StopsAt p (rest ++ lineFeed :: more) := by
  cases rest with
  | nil =>
    rintro b ⟨⟩
    exact feed
  | cons c rest => exact h

/-- A lexeme in front of a text is one in front of the text, a line feed and more. Only a directive
that ends the text takes the line feed. -/
theorem Spells.before_feed (h : Spells content bytes rest) (more : List UInt8) :
    Spells content bytes (rest ++ lineFeed :: more) ∨
      rest = [] ∧ Spells content (bytes ++ [lineFeed]) more := by
  cases h with
  | blank h => exact .inl (.blank h)
  | zero => exact .inl .zero
  | comment row ends => exact .inl (.comment row (ends.before_feed rfl more))
  | directive name number ends =>
    obtain rfl | ⟨rfl, rfl⟩ := ends
    · exact .inl (.directive name number (.inl rfl))
    · refine .inr ⟨rfl, ?_⟩
      rw [List.append_nil]
      exact .directive name number (.inl rfl)
  | string body => exact .inl (.string body)
  | char body short => exact .inl (.char body short)
  | word first all ends => exact .inl (.word first all (ends.before_feed (by decide) more))
  | @decimal b run _ first all ends unmarked =>
    refine .inl (.decimal first all (ends.before_feed (by decide) more) fun zero => ?_)
    have unmarked := unmarked zero
    rw [← List.append_assoc]
    cases shape : run ++ rest with
    | nil => exact show radix? lineFeed = none by decide
    | cons c _ =>
      rw [shape] at unmarked
      exact unmarked
  | radix mark all ends => exact .inl (.radix mark all (ends.before_feed (by decide) more))
  | @mark m _ longest division =>
    cases rest with
    | nil =>
      have division : some (ofByte lineFeed) ≠ some '/' := by decide
      refine .inl (.mark ?_ fun _ => division)
      rintro c ⟨⟩
      cases m <;> decide +kernel
    | cons c rest => exact .inl (.mark longest division)

end Lexeme

variable {source : List UInt8} {xs : List Lexeme}

/-- The lexemes of a sound text, a line feed and more. -/
theorem Lexed.lexemes_append (h : Lexed source xs) (more : List UInt8) :
    ∃ ys, ys.filterMap Lexeme.kind? = xs.filterMap Lexeme.kind? ∧
      lexemes (source ++ lineFeed :: more) = (ys ++ (lexemes more).1, (lexemes more).2) := by
  induction h with
  | nil =>
    have blank : Lexeme.Spells .blank [lineFeed] more := .blank rfl
    exact ⟨[⟨.blank, [lineFeed]⟩], rfl, lexemes_append_of_spells (x := ⟨_, _⟩) blank⟩
  | @cons x rest xs first behind ih =>
    obtain ⟨ys, kinds, read⟩ := ih
    rcases first.before_feed more with same | ⟨rfl, longer⟩
    · refine ⟨x :: ys, ?_, ?_⟩
      · rw [List.filterMap_cons, List.filterMap_cons, kinds]
      · rw [List.append_assoc, lexemes_append_of_spells same, read, List.cons_append]
    · obtain rfl := behind.eq_nil
      refine ⟨[⟨x.content, x.bytes ++ [lineFeed]⟩], rfl, ?_⟩
      have read := lexemes_append_of_spells (x := ⟨x.content, x.bytes ++ [lineFeed]⟩) longer
      rw [List.append_assoc, List.singleton_append] at read
      rw [List.append_nil]
      exact read

/-- **Texts are read line by line.** Behind a sound text and a line feed, a text is read as it is
read alone: the kinds of its tokens come behind those of the first text, and it fails for the same
cause if it fails. -/
theorem kinds_scanText_append {file first : String} {ts : List Token}
    (ok : (scanText file first).tokens = .ok ts) (second : String) :
    (scanText file (first ++ "\n" ++ second)).kinds =
      (scanText file second).kinds.map (ts.map Token.kind ++ ·) := by
  have bytes : Utf8.encode (first ++ "\n" ++ second).toList =
      Utf8.encode first.toList ++ lineFeed :: Utf8.encode second.toList := by
    have feed : Utf8.encode "\n".toList = [lineFeed] := by decide
    rw [String.toList_append, String.toList_append, Utf8.encode_append, Utf8.encode_append, feed,
      List.append_assoc, List.singleton_append]
  obtain ⟨xs, fault, read⟩ : ∃ xs fault, lexemes (Utf8.encode first.toList) = (xs, fault) :=
    ⟨_, _, rfl⟩
  rw [scanText, scanBytes, read] at ok
  obtain ⟨rfl, kinds⟩ := Scan.eq_of_tokens ok
  obtain ⟨ys, same, whole⟩ := (lexemes_eq_iff.1 read).lexemes_append (Utf8.encode second.toList)
  simp only [scanText, scanBytes, bytes, whole, Scan.kinds_ofLexemes]
  cases (lexemes (Utf8.encode second.toList)).2 with
  | none => simp only [Except.map, List.filterMap_append, same, kinds]
  | some cause => rfl

/-- A comment does not open the literal of the next row. -/
theorem kinds_scanText_append_comment :
    (scanText "main" "a // '").tokens = .ok [⟨.ident "a", ⟨"main", 1, 0⟩⟩] ∧
      (scanText "main" ("a // '" ++ "\n" ++ "'b' 2")).kinds =
        (scanText "main" "'b' 2").kinds.map ([.ident "a"] ++ ·) := by
  have ok : (scanText "main" "a // '").tokens = .ok [⟨.ident "a", ⟨"main", 1, 0⟩⟩] := by
    decide +kernel
  exact ⟨ok, kinds_scanText_append ok "'b' 2"⟩

end StackLang.Source
