import StackLang.Proofs.Source.Spellings
import StackLang.Source.Tokenize

/-!
# Locations of tokens

A place in a text has a row and a column by the bytes in front of it: the row counts the line feeds,
from the first row of the file or from the directive that was read last, and the column counts the
bytes since the last line feed. `located_of_scanText` proves that the reader, which carries a
location along from lexeme to lexeme, gives each token the location of the place where it starts.
-/

namespace StackLang.Source

open Numeric Text

/-! ## Places -/

/-- The last row of a text starts at `start`: at the beginning or behind the last line feed. -/
structure StartsRow (text : List UInt8) (start : Nat) : Prop where
  le : start ≤ text.length
  behind : start = 0 ∨ text[start - 1]? = some lineFeed
  clean : lineFeed ∉ text.drop start

/-- `@"file" n` and the end of its row. -/
def Lexeme.Directs (d : Lexeme) (file : String) (n : Nat) : Prop :=
  toByte '"' ∉ Utf8.encode file.toList ∧ ∃ digits, Numeral.whole? 10 (asciiText digits) = some n ∧
    d.bytes = directiveBytes file digits ++ [lineFeed]

/-- `l` is where the lexemes `before`, which begin the file `file`, have their end. -/
structure Location.IsBehind (l : Location) (file : String) (before : List Lexeme) : Prop where
  undirected : (∀ d ∈ before, ∀ name n, ¬ d.Directs name n) →
    l.file = file ∧ l.row = 1 + (before.flatMap Lexeme.bytes).count lineFeed
  directed : ∀ front d between name n, before = front ++ d :: between → d.Directs name n →
    (∀ e ∈ between, ∀ name n, ¬ e.Directs name n) →
    l.file = name ∧ l.row = min maxInt64 n + (between.flatMap Lexeme.bytes).count lineFeed
  column : ∃ start, StartsRow (before.flatMap Lexeme.bytes) start ∧
    l.column = (before.flatMap Lexeme.bytes).length - start

/-! ## Bytes of a row of lexemes -/

namespace Location

variable {l : Location} {text bytes : List UInt8}

@[simp] theorem file_after (l : Location) (bytes : List UInt8) : (l.after bytes).file = l.file := by
  induction bytes generalizing l with
  | nil => rfl
  | cons b bytes ih =>
    rw [after_cons, ih, step]
    split <;> rfl

theorem row_after (l : Location) (bytes : List UInt8) :
    (l.after bytes).row = l.row + bytes.count lineFeed := by
  induction bytes generalizing l with
  | nil => rfl
  | cons b bytes ih =>
    rw [after_cons, ih, step, List.count_cons]
    split
    · rename_i feed
      simp only [feed, BEq.rfl, if_true]
      omega
    · rename_i other
      simp [other]

/-- The column is what the last row of the text in front of the place has. -/
def HasColumn (l : Location) (text : List UInt8) : Prop :=
  ∃ start, StartsRow text start ∧ l.column = text.length - start

theorem hasColumn_of_feed (column : l.column = 0) : l.HasColumn (text ++ [lineFeed]) :=
  ⟨(text ++ [lineFeed]).length, ⟨Nat.le_refl _, .inr (by simp), by simp⟩, by rw [column]; simp⟩

theorem HasColumn.step (h : l.HasColumn text) (b : UInt8) : (l.step b).HasColumn (text ++ [b]) := by
  unfold Location.step
  split
  · rename_i feed
    subst feed
    exact hasColumn_of_feed rfl
  · rename_i other
    obtain ⟨start, row, column⟩ := h
    refine ⟨start, ⟨?_, ?_, ?_⟩, ?_⟩
    · exact Nat.le_trans row.le (by simp)
    · refine row.behind.imp_right fun feed => ?_
      have inside := (List.getElem?_eq_some_iff.1 feed).1
      rwa [List.getElem?_append_left inside]
    · rw [List.drop_append_of_le_length row.le, List.mem_append, List.mem_singleton, not_or]
      exact ⟨row.clean, Ne.symm other⟩
    · have le := row.le
      simp only [column, List.length_append, List.length_singleton]
      omega

theorem HasColumn.after (h : l.HasColumn text) (bytes : List UInt8) :
    (l.after bytes).HasColumn (text ++ bytes) := by
  induction bytes generalizing l text with
  | nil => rwa [List.append_nil]
  | cons b bytes ih =>
    have whole := ih (h.step b)
    rwa [List.append_assoc, List.singleton_append] at whole

/-- The location behind a row of lexemes. -/
def through (l : Location) (xs : List Lexeme) : Location := xs.foldl (fun l x => x.place l) l

theorem through_append (l : Location) (xs ys : List Lexeme) :
    l.through (xs ++ ys) = (l.through xs).through ys := List.foldl_append

end Location

/-! ## Directives -/

namespace Lexeme

variable {d : Lexeme} {rest : List UInt8} {file : String}

/-- A directive that is not the end of the text. -/
theorem directs_of_content {row : Nat} (spelled : Spells d.content d.bytes rest) (more : rest ≠ [])
    (content : d.content = .directive file row) :
    ∃ n, d.Directs file n ∧ row = min maxInt64 n := by
  obtain ⟨_, bytes⟩ := d
  subst content
  cases spelled with
  | @directive _ n digits feed _ name number ends =>
    obtain rfl | ⟨-, last⟩ := ends
    · exact ⟨n, ⟨name, digits, number, rfl⟩, rfl⟩
    · exact absurd last more

theorem Directs.content {n : Nat} (h : d.Directs file n) (spelled : Spells d.content d.bytes rest) :
    d.content = .directive file (min maxInt64 n) := by
  obtain ⟨name, digits, number, bytes⟩ := h
  have directive : Spells (.directive file (min maxInt64 n)) d.bytes rest :=
    bytes ▸ .directive name number (.inl rfl)
  exact spelled.content_unique directive

theorem place_of_not_directs (spelled : Spells d.content d.bytes rest) (more : rest ≠ [])
    (none : ∀ file n, ¬ d.Directs file n) (l : Location) : d.place l = l.after d.bytes := by
  unfold place
  split
  · rename_i file row content
    obtain ⟨n, directs, -⟩ := directs_of_content spelled more content
    exact absurd directs (none file n)
  · rfl

theorem Directs.place {n : Nat} (h : d.Directs file n) (spelled : Spells d.content d.bytes rest)
    (l : Location) : d.place l = ⟨file, min maxInt64 n, 0⟩ := by
  rw [Lexeme.place, h.content spelled]

/-- The column is kept by each lexeme that something follows. -/
theorem hasColumn_place {l : Location} {text : List UInt8} (h : l.HasColumn text)
    (spelled : Spells d.content d.bytes rest) (more : rest ≠ []) :
    (d.place l).HasColumn (text ++ d.bytes) := by
  by_cases directs : ∃ file n, d.Directs file n
  · obtain ⟨file, n, directs⟩ := directs
    rw [directs.place spelled]
    obtain ⟨-, digits, -, bytes⟩ := directs
    rw [bytes, ← List.append_assoc]
    exact Location.hasColumn_of_feed rfl
  · rw [place_of_not_directs spelled more fun file n h => directs ⟨file, n, h⟩]
    exact h.after d.bytes

end Lexeme

/-! ## Rows of lexemes -/

section

variable {l : Location} {x : Lexeme} {source text : List UInt8} {before after : List Lexeme}

theorem Lexed.source_ne_nil (h : Lexed source (before ++ x :: after)) : source ≠ [] := by
  rintro rfl
  exact absurd h.eq_nil (by simp)

theorem through_of_undirected (h : Lexed source (before ++ x :: after))
    (none : ∀ d ∈ before, ∀ file n, ¬ d.Directs file n) :
    l.through before = l.after (before.flatMap Lexeme.bytes) := by
  induction before generalizing l source with
  | nil => rfl
  | cons d before ih =>
    cases h with
    | cons first more =>
      have place := Lexeme.place_of_not_directs first more.source_ne_nil
        (none d List.mem_cons_self) l
      rw [List.flatMap_cons, Location.after_append, ← place]
      exact ih more fun e mem => none e (List.mem_cons_of_mem d mem)

theorem hasColumn_through (h : Lexed source (before ++ x :: after)) (column : l.HasColumn text) :
    (l.through before).HasColumn (text ++ before.flatMap Lexeme.bytes) := by
  induction before generalizing l source text with
  | nil => rwa [List.flatMap_nil, List.append_nil]
  | cons d before ih =>
    cases h with
    | cons first more =>
      rw [List.flatMap_cons, ← List.append_assoc]
      exact ih more (Lexeme.hasColumn_place column first more.source_ne_nil)

/-- The location that the reader carries along is that of the place. -/
theorem isBehind_through (file : String) (h : Lexed source (before ++ x :: after)) :
    ((Location.start file).through before).IsBehind file before where
  undirected none := by
    rw [through_of_undirected h none]
    exact ⟨Location.file_after _ _, Location.row_after _ _⟩
  directed front d between name n shape directs none := by
    subst shape
    rw [List.append_assoc, List.cons_append] at h
    obtain ⟨rest, behind⟩ := h.of_append
    cases behind with
    | cons first more =>
      have place := directs.place first ((Location.start file).through front)
      have through : (Location.start file).through (front ++ d :: between) =
          (⟨name, min maxInt64 n, 0⟩ : Location).after (between.flatMap Lexeme.bytes) := by
        rw [Location.through_append, ← through_of_undirected more none, ← place]
        rfl
      rw [through]
      exact ⟨Location.file_after _ _, Location.row_after _ _⟩
  column := by
    have start : (Location.start file).HasColumn [] :=
      ⟨0, ⟨Nat.le_refl 0, .inl rfl, List.not_mem_nil⟩, rfl⟩
    have column := hasColumn_through h start
    rwa [List.nil_append] at column

end

/-! ## Tokens -/

/-- Each token of a scan is one of the lexemes, at the location behind the lexemes in front. -/
theorem exists_of_tokens {l : Location} {xs : List Lexeme} {ts us : List Token} {t : Token}
    (h : (Scan.ofLexemes l none xs).tokens = .ok (ts ++ t :: us)) :
    ∃ before x after, xs = before ++ x :: after ∧ x.kind? = some t.kind ∧
      before.filterMap Lexeme.kind? = ts.map Token.kind ∧
      after.filterMap Lexeme.kind? = us.map Token.kind ∧ t.loc = l.through before := by
  induction xs generalizing l ts with
  | nil =>
    have none : ts ++ t :: us = [] := (Except.ok.inj h).symm
    exact absurd none (by simp)
  | cons x xs ih =>
    rw [Scan.tokens_cons] at h
    split at h
    · rename_i none
      obtain ⟨before, y, after, rfl, kind, front, back, loc⟩ := ih h
      refine ⟨x :: before, y, after, rfl, kind, ?_, back, loc⟩
      rw [List.filterMap_cons, none]
      exact front
    · rename_i kind token
      obtain ⟨rest, scanned, shape⟩ := map_eq_ok_iff.1 h
      cases ts with
      | nil =>
        cases shape
        exact ⟨[], x, xs, rfl, token, rfl, (Scan.eq_of_tokens scanned).2, rfl⟩
      | cons u ts =>
        cases shape
        obtain ⟨before, y, after, rfl, kind', front, back, loc⟩ := ih scanned
        refine ⟨x :: before, y, after, rfl, kind', ?_, back, loc⟩
        rw [List.filterMap_cons, token, List.map_cons, ← front]

/-- **Each token is where its location shows.** A text that is read without fault is a row of
spelled lexemes, in one way. Each of its tokens is one of them, with as many tokens in front of it
and behind it, and its location is that of the place where the lexeme starts. -/
theorem located_of_scanText {file source : String} {tokens : List Token}
    (ok : (scanText file source).tokens = .ok tokens) :
    ∃ xs, Lexed (Utf8.encode source.toList) xs ∧
      ∀ ts t us, tokens = ts ++ t :: us → ∃ before x after, xs = before ++ x :: after ∧
        x.kind? = some t.kind ∧ before.filterMap Lexeme.kind? = ts.map Token.kind ∧
        after.filterMap Lexeme.kind? = us.map Token.kind ∧ t.loc.IsBehind file before := by
  obtain ⟨xs, fault, read⟩ : ∃ xs fault, lexemes (Utf8.encode source.toList) = (xs, fault) :=
    ⟨_, _, rfl⟩
  rw [scanText, scanBytes, read] at ok
  obtain ⟨rfl, -⟩ := Scan.eq_of_tokens ok
  have lexed := lexemes_eq_iff.1 read
  refine ⟨xs, lexed, ?_⟩
  rintro ts t us rfl
  obtain ⟨before, x, after, rfl, kind, front, back, loc⟩ := exists_of_tokens ok
  exact ⟨before, x, after, rfl, kind, front, back, loc ▸ isBehind_through file lexed⟩

/-- A line feed in a literal, a directive in a comment and a directive. -/
def directedText : String := "'\n' a // @\"no\" 3\n@\"lib\" 7\n x"

theorem located_of_scanText_directed :
    let tokens : List Token := [⟨.char 0x0A, ⟨"main", 1, 0⟩⟩, ⟨.ident "a", ⟨"main", 2, 2⟩⟩,
      ⟨.ident "x", ⟨"lib", 7, 1⟩⟩]
    (scanText "main" directedText).tokens = .ok tokens ∧
      ∃ xs, Lexed (Utf8.encode directedText.toList) xs ∧
        ∀ ts t us, tokens = ts ++ t :: us → ∃ before x after, xs = before ++ x :: after ∧
          x.kind? = some t.kind ∧ before.filterMap Lexeme.kind? = ts.map Token.kind ∧
          after.filterMap Lexeme.kind? = us.map Token.kind ∧ t.loc.IsBehind "main" before := by
  intro tokens
  have ok : (scanText "main" directedText).tokens = .ok tokens := by decide +kernel
  exact ⟨ok, located_of_scanText ok⟩

end StackLang.Source
