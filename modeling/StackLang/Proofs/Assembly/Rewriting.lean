import Mathlib.Data.List.TakeWhile
import Mathlib.Data.Set.List
import StackLang.Proofs.Assembly.Renaming
import StackLang.Proofs.Assembly.Spelling

/-!
# Texts under other names

A row whose labels are renamed is the row with other words in their places, everything between them
as it is. If each of the words is a name for the assembler, then the row is read as the same tokens
with other names: what is read as one token is read as this token whatever follows, as long as
words and numbers stay apart from it. So a text assembles to the same program under other names.
-/

namespace StackLang.Assembly

open Bytecode Numeric Text

/-- A word that the assembler reads as a name. -/
structure IsName (w : String) : Prop where
  word : Row.IsWordText w.toList
  name : Token.ofWord w = .name w

namespace Row

variable {after : Char} {b : UInt8} {rest r : List UInt8} {t : Token}

/-! ## What is read as one token -/

theorem lt_of_isNumber {b : UInt8} : isNumber b → b.toNat < 128 :=
  forall_byte (p := fun b => isNumber b → b.toNat < 128) (by decide +kernel) b

theorem lt_of_isBlank {b : UInt8} : isBlank b → b.toNat < 128 :=
  forall_byte (p := fun b => isBlank b → b.toNat < 128) (by decide +kernel) b

theorem isNumber_of_isWord {b : UInt8} (h : isWord b) : isNumber b := by
  rw [isNumber, h, Bool.true_or]

theorem isWord_of_start {b : UInt8} (start : (ofByte b).isAlpha ∨ ofByte b = '_') : isWord b := by
  rcases start with letter | underscore
  · simp [isWord, Char.isAlphanum, letter]
  · simp [isWord, underscore]

/-- A literal reaches to its delimiter, whatever follows. -/
theorem quoted_split {delimiter : UInt8} (ne : delimiter ≠ 0x5C) {s : List UInt8}
    (h : quoted after delimiter rest = .ok (s, r)) :
    ∃ more, rest = more ++ delimiter :: r ∧ ∀ after' r',
      quoted after' delimiter (more ++ delimiter :: r') = .ok (s, r') := by
  fun_induction quoted after delimiter rest generalizing s with
  | case1 => cases h
  | case2 => cases h
  | case3 => cases h
  | case4 c rest e resolved ih =>
    obtain ⟨p, inner, last⟩ := map_eq_ok_iff.1 h
    cases last
    obtain ⟨more, rfl, any⟩ := ih inner
    refine ⟨0x5C :: c :: more, rfl, fun after' r' => ?_⟩
    rw [List.cons_append, List.cons_append, quoted_escape resolved, any]
    rfl
  | case5 rest =>
    cases h
    exact ⟨[], rfl, fun after' r' => quoted_close ne r'⟩
  | case6 b rest backslash other ih =>
    obtain ⟨p, inner, last⟩ := map_eq_ok_iff.1 h
    cases last
    obtain ⟨more, rfl, any⟩ := ih inner
    refine ⟨b :: more, rfl, fun after' r' => ?_⟩
    rw [List.cons_append, quoted_cons backslash other, any]
    rfl

/-- The first byte behind a class of characters is none of them. -/
theorem ends_dropWhile (p : UInt8 → Bool) (bytes : List UInt8) :
    ∀ a ∈ (bytes.dropWhile p).head?, p a = false := by
  intro a head
  have none := List.head?_dropWhile_not p bytes
  rw [Option.mem_def.1 head] at none
  exact none

/-- The class of characters ends where it ended if what follows starts alike. -/
theorem span_of_alike (p : UInt8 → Bool) (bytes : List UInt8) {r' : List UInt8}
    (alike : r'.head? = (bytes.dropWhile p).head?) :
    (bytes.takeWhile p ++ r').takeWhile p = bytes.takeWhile p ∧
      (bytes.takeWhile p ++ r').dropWhile p = r' := by
  refine span_of_ends (fun a mem => List.mem_takeWhile_imp mem) ?_
  rw [alike]
  exact ends_dropWhile p bytes

/-- Two ways to go on behind a token come to the same for it: where the first does not go on with a
character of a word, the second starts with the same byte. -/
def Alike (r r' : List UInt8) : Prop := (∀ a ∈ r.head?, isWord a = false) → r'.head? = r.head?

/-- A token takes the same bytes in front of everything that comes to the same for it. The last of
them is an ASCII character. -/
theorem scan_split (h : scan after b rest = .ok (t, r)) :
    ∃ more, rest = more ++ r ∧ (∃ front a, b :: more = front ++ [a] ∧ a.toNat < 128) ∧
      ∀ after' r', Alike r r' → scan after' b (more ++ r') = .ok (t, r') := by
  have ends {more : List UInt8} (first : b.toNat < 128) (others : ∀ a ∈ more, isNumber a) :
      ∃ front a, b :: more = front ++ [a] ∧ a.toNat < 128 := by
    refine ⟨_, _, ((b :: more).dropLast_append_getLast (by simp)).symm, ?_⟩
    rcases List.mem_cons.1 (List.getLast_mem (List.cons_ne_nil b more)) with same | mem
    · rwa [same]
    · exact lt_of_isNumber (others _ mem)
  unfold scan at h
  -- Literals end with their delimiter, numbers and words where their characters end.
  split at h
  · rename_i quote
    obtain ⟨⟨s, r⟩, read, last⟩ := bind_eq_ok_iff.1 h
    cases last
    obtain rfl := (ofByte_eq_iff (by decide)).1 quote
    obtain ⟨more, rfl, any⟩ := quoted_split (by decide) read
    refine ⟨more ++ [toByte '"'], by simp, ⟨_ :: more, _, rfl, by decide⟩, fun after' r' _ => ?_⟩
    rw [List.append_assoc, List.singleton_append, scan, if_pos quote, any]
    rfl
  split at h
  · rename_i single quote
    obtain ⟨⟨s, r⟩, read, inner⟩ := bind_eq_ok_iff.1 h
    obtain ⟨u, char, last⟩ := bind_eq_ok_iff.1 inner
    cases last
    obtain rfl := (ofByte_eq_iff (by decide)).1 quote
    obtain ⟨more, rfl, any⟩ := quoted_split (by decide) read
    refine ⟨more ++ [toByte '\''], by simp, ⟨_ :: more, _, rfl, by decide⟩, fun after' r' _ => ?_⟩
    rw [List.append_assoc, List.singleton_append, scan, if_neg single, if_pos quote, any, ok_bind]
    exact bind_eq_ok_iff.2 ⟨_, char, rfl⟩
  split at h
  · rename_i double single colon
    cases h
    obtain rfl := (ofByte_eq_iff (by decide)).1 colon
    refine ⟨[], rfl, ⟨[], _, rfl, by decide⟩, fun after' r' _ => ?_⟩
    rw [List.nil_append, scan, if_neg double, if_neg single, if_pos colon]
  split at h
  · rename_i double single colon start
    obtain ⟨u, number, last⟩ := bind_eq_ok_iff.1 h
    cases last
    have first : b.toNat < 128 := by
      rw [Bool.or_eq_true, decide_eq_true_eq] at start
      rcases start with digit | minus
      · exact lt_of_isNumber (by simp [isNumber, isWord, Char.isAlphanum, digit])
      · rw [(ofByte_eq_iff (by decide)).1 minus]
        decide
    refine ⟨_, List.takeWhile_append_dropWhile.symm,
      ends first fun a mem => List.mem_takeWhile_imp mem, fun after' r' alike => ?_⟩
    obtain ⟨before, behind⟩ := span_of_alike isNumber rest <| alike fun a head => by
      by_contra word
      rw [Bool.not_eq_false] at word
      have := ends_dropWhile isNumber rest a head
      rw [isNumber_of_isWord word] at this
      cases this
    rw [scan, if_neg double, if_neg single, if_neg colon, if_pos start, before, behind]
    exact bind_eq_ok_iff.2 ⟨_, number, rfl⟩
  split at h
  · rename_i double single colon digit start
    cases h
    have first := isNumber_of_isWord (isWord_of_start (by simpa using start))
    refine ⟨_, List.takeWhile_append_dropWhile.symm, ends (lt_of_isNumber first)
      fun a mem => isNumber_of_isWord (List.mem_takeWhile_imp mem), fun after' r' alike => ?_⟩
    obtain ⟨before, behind⟩ := span_of_alike isWord rest (alike (ends_dropWhile isWord rest))
    rw [scan, if_neg double, if_neg single, if_neg colon, if_neg digit, if_pos start, before,
      behind]
  · cases h

/-- Which token it is does not depend on what follows the row. -/
theorem scan_congr (after' : Char) (h : scan after b rest = .ok (t, r)) :
    scan after' b rest = .ok (t, r) := by
  obtain ⟨more, rfl, -, any⟩ := scan_split h
  exact any after' r fun _ => rfl

/-- A name is a word: it starts with a letter or an underscore and goes on as far as it can. -/
theorem scan_name {w : String} (h : scan after b rest = .ok (.name w, r)) :
    isWord b ∧ ∀ a ∈ r.head?, isWord a = false := by
  unfold scan at h
  split at h
  · obtain ⟨p, -, last⟩ := bind_eq_ok_iff.1 h
    cases last
  split at h
  · obtain ⟨p, -, inner⟩ := bind_eq_ok_iff.1 h
    obtain ⟨u, char, last⟩ := bind_eq_ok_iff.1 inner
    cases last
    unfold charToken at char
    split at char <;> cases char
  split at h
  · cases h
  split at h
  · obtain ⟨u, number, last⟩ := bind_eq_ok_iff.1 h
    cases last
    obtain ⟨n, other⟩ | ⟨pattern, other⟩ := numberToken_cases number <;> cases other
  split at h
  · rename_i start
    obtain ⟨-, rfl⟩ := Prod.mk.inj (Except.ok.inj h)
    exact ⟨isWord_of_start (by simpa using start), ends_dropWhile isWord rest⟩
  · cases h

/-- The text is read as the token and then what follows, in front of all that goes on like `r`. -/
def Takes (text : List UInt8) (t : Token) (r : List UInt8) : Prop :=
  ∀ after r', Alike r r' →
    tokens after (text ++ r') = (t :: (tokens after r').1, (tokens after r').2)

theorem takes_of_isName {w : String} (name : IsName w)
    (ends : ∀ a ∈ r.head?, isWord a = false) : Takes (Utf8.encode w.toList) (.name w) r := by
  intro after r' alike
  obtain ⟨c, more, text, start⟩ := name.word.start
  have word := name.word
  rw [text] at word
  have ascii : ∀ d ∈ c :: more, IsAscii d := fun d mem => (word.all d mem).1
  obtain ⟨blank, semicolon, -⟩ := word_start (ascii c List.mem_cons_self) start
  rw [text, Utf8.encode_ascii ascii, List.map_cons, List.cons_append]
  refine tokens_of_scan ⟨blank, by rwa [ofByte_toByte (ascii c List.mem_cons_self)]⟩ ?_
  rw [scan_word word (by rwa [alike ends]), ← text, String.ofList_toList, name.name]

/-! ## Rows under other names -/

/-- The text of a token with its label renamed. -/
def respell (ρ : String → String) (before : Option Token) (t : Token) (text : List UInt8) :
    List UInt8 :=
  (t.label? before).elim text fun w => Utf8.encode (ρ w).toList

/-- The row with its labels renamed, which stands behind the given token. A comment, and what cannot
be read, stays as it is. -/
def rename (ρ : String → String) (before : Option Token) (bytes : List UInt8) : List UInt8 :=
  match bytes with
  | [] => []
  | b :: rest =>
    if isBlank b then b :: rename ρ before rest
    else if ofByte b = ';' then b :: rest
    else
      match h : scan '\n' b rest with
      | .error _ => b :: rest
      | .ok (t, r) =>
        have := scan_length_le h
        respell ρ before t (b :: rest.take (rest.length - r.length)) ++ rename ρ (some t) r
termination_by bytes.length

variable {ρ : String → String} {before : Option Token} {bytes text : List UInt8}

theorem label?_eq_some_iff {w : String} :
    t.label? before = some w ↔ t = .name w ∧ namesLabel before := by
  cases t <;> simp [Token.label?, and_comm]

theorem take_front (more r : List UInt8) :
    (more ++ r).take ((more ++ r).length - r.length) = more := by
  rw [List.length_append, Nat.add_sub_cancel, List.take_left]

/-- A row under other names comes to the same for what stands in front of it: where it starts with a
label, it starts with a character of a word. -/
theorem alike_rename (ρ : String → String) (before : Option Token) (bytes : List UInt8) :
    Alike bytes (rename ρ before bytes) := by
  intro start
  fun_cases rename ρ before bytes with
  | case1 => rfl
  | case2 => rfl
  | case3 => rfl
  | case4 => rfl
  | case5 b rest _ _ t r scanned _ =>
    cases label : t.label? before with
    | none =>
      rw [respell, label]
      rfl
    | some w =>
      obtain ⟨rfl, -⟩ := label?_eq_some_iff.1 label
      have letter := (scan_name scanned).1
      rw [start b rfl] at letter
      cases letter

theorem Takes.respell (takes : Takes text t r) (names : ∀ w ∈ t.label? before, IsName (ρ w))
    (ends : ∀ w, t = .name w → ∀ a ∈ r.head?, isWord a = false) :
    Takes (respell ρ before t text) (t.rename ρ before) r := by
  cases label : t.label? before with
  | none =>
    rw [Row.respell, Token.rename, label]
    exact takes
  | some w =>
    rw [Row.respell, Token.rename, label]
    exact takes_of_isName (names w label) (ends w (label?_eq_some_iff.1 label).1)

/-- **A row under other names is read as its tokens under other names.** -/
theorem tokens_rename (names : ∀ w ∈ labelsOf before (tokens after bytes).1, IsName (ρ w)) :
    tokens after (rename ρ before bytes) =
      (renameTokens ρ before (tokens after bytes).1, (tokens after bytes).2) := by
  fun_induction rename ρ before bytes with
  | case1 => simp [tokens, renameTokens]
  | case2 before b rest blank ih =>
    rw [tokens, if_pos blank] at names ⊢
    rw [ih names, tokens, if_pos blank]
  | case3 before b rest blank comment =>
    rw [tokens, if_neg blank, if_pos comment]
    rfl
  | case4 before b rest blank comment cause scanned =>
    cases other : scan after b rest with
    | error cause' =>
      rw [tokens_of_scan_error ⟨by simpa using blank, comment⟩ other]
      rfl
    | ok p =>
      rw [scan_congr '\n' other] at scanned
      cases scanned
  | case5 before b rest blank comment t r scanned _ ih =>
    obtain ⟨more, rfl, -, any⟩ := scan_split scanned
    have takes : Takes (b :: more) t r := fun after r' alike =>
      tokens_of_scan ⟨by simpa using blank, comment⟩ (any after r' alike)
    have first := takes after r fun _ => rfl
    rw [List.cons_append] at first
    rw [first, labelsOf, List.forall_mem_append] at names
    have ends (w : String) (name : t = .name w) : ∀ a ∈ r.head?, isWord a = false := by
      subst name
      exact (scan_name scanned).2
    have renamed := takes.respell (fun w label => names.1 w (Option.mem_toList.2 label)) ends
      after _ (alike_rename ρ (some t) r)
    rw [ih names.2] at renamed
    rw [take_front, first, renamed]
    rfl

/-- A row under other names is one row. -/
theorem lineFeed_not_mem_rename (clean : lineFeed ∉ bytes)
    (names : ∀ w ∈ labelsOf before (tokens after bytes).1, IsName (ρ w)) :
    lineFeed ∉ rename ρ before bytes := by
  fun_induction rename ρ before bytes with
  | case1 => exact clean
  | case2 before b rest blank ih =>
    rw [tokens, if_pos blank] at names
    rw [List.mem_cons, not_or] at clean ⊢
    exact ⟨clean.1, ih clean.2 names⟩
  | case3 => exact clean
  | case4 => exact clean
  | case5 before b rest blank comment t r scanned _ ih =>
    rw [tokens_of_scan ⟨by simpa using blank, comment⟩ (scan_congr after scanned), labelsOf,
      List.forall_mem_append] at names
    obtain ⟨more, rfl, -, -⟩ := scan_split scanned
    rw [← List.cons_append, List.mem_append, not_or] at clean
    rw [take_front, List.mem_append, not_or]
    refine ⟨?_, ih clean.2 names.2⟩
    cases label : t.label? before with
    | none =>
      rw [respell, label]
      exact clean.1
    | some w =>
      rw [respell, label]
      exact Text.lineFeed_not_mem_encode (names.1 w (Option.mem_toList.2 label)).word.spells.clean

/-- The row of a text is one under other names. -/
theorem exists_encode_rename (h : ∃ chars, bytes = Utf8.encode chars) :
    ∃ chars, rename ρ before bytes = Utf8.encode chars := by
  have joined {front back : List UInt8} (first : ∃ s, front = Utf8.encode s)
      (second : ∃ t, back = Utf8.encode t) : ∃ chars, front ++ back = Utf8.encode chars := by
    obtain ⟨s, rfl⟩ := first
    obtain ⟨t, rfl⟩ := second
    exact ⟨s ++ t, (Utf8.encode_append s t).symm⟩
  fun_induction rename ρ before bytes with
  | case1 => exact h
  | case2 before b rest blank ih =>
    obtain ⟨chars, whole⟩ := h
    rw [← List.nil_append (b :: rest)] at whole
    obtain ⟨first, second⟩ := Utf8.exists_encode_of_ascii (lt_of_isBlank blank) whole.symm
    exact joined first (ih second)
  | case3 => exact h
  | case4 => exact h
  | case5 before b rest blank comment t r scanned _ ih =>
    -- The token ends with an ASCII character, so a text starts behind it.
    obtain ⟨more, rfl, ⟨front, a, last, low⟩, -⟩ := scan_split scanned
    obtain ⟨chars, whole⟩ := h
    rw [← List.cons_append, last, List.append_assoc, List.singleton_append] at whole
    obtain ⟨first, second⟩ := Utf8.exists_encode_of_ascii low whole.symm
    rw [take_front]
    refine joined ?_ (ih second)
    rw [respell, last]
    cases t.label? before with
    | none => exact first
    | some w => exact ⟨_, rfl⟩

end Row

/-! ## Texts under other names -/

theorem toLine_rename {ρ : String → String} {number : Nat} {last : Bool} {row : List UInt8}
    (names : ∀ w ∈ (Row.toLine number last row).labelNames, IsName (ρ w)) :
    Row.toLine number last (Row.rename ρ none row) = (Row.toLine number last row).rename ρ := by
  unfold Row.toLine
  rw [Row.tokens_rename names]
  rfl

theorem linesFrom_rename {ρ : String → String} {number : Nat} {all : List (List UInt8)}
    (names : ∀ l ∈ linesFrom number all, ∀ w ∈ l.labelNames, IsName (ρ w)) :
    linesFrom number (all.map (Row.rename ρ none)) =
      (linesFrom number all).map (Line.rename ρ) := by
  fun_induction linesFrom number all with
  | case1 => rfl
  | case2 number row =>
    rw [List.map_singleton, List.map_singleton, linesFrom,
      toLine_rename (names _ List.mem_cons_self)]
  | case3 number row rows ne ih =>
    rw [List.forall_mem_cons] at names
    rw [List.map_cons, linesFrom_cons (by simpa using ne), toLine_rename names.1, ih names.2,
      List.map_cons]

/-- The labels that a text names. -/
def labelNames (text : String) : List String :=
  (lines (Utf8.encode text.toList)).flatMap Line.labelNames

/-- The text with its labels renamed. -/
def rename (ρ : String → String) (text : String) : String :=
  String.ofList <| Utf8.decodeLossy <|
    [lineFeed].intercalate ((rows (Utf8.encode text.toList)).map (Row.rename ρ none))

variable {ρ : String → String} {text : String}

/-- Nothing is lost between the bytes and the text. -/
theorem encode_rename (ρ : String → String) (text : String) :
    Utf8.encode (rename ρ text).toList =
      [lineFeed].intercalate ((rows (Utf8.encode text.toList)).map (Row.rename ρ none)) := by
  have each : ∀ row ∈ (rows (Utf8.encode text.toList)).map (Row.rename ρ none),
      row ∈ Set.range Utf8.encode := by
    rw [List.forall_mem_map]
    intro row mem
    obtain ⟨chars, same⟩ := Row.exists_encode_rename (Utf8.exists_encode_of_mem_rows mem)
    exact ⟨chars, same.symm⟩
  obtain ⟨texts, same⟩ := (Set.range_list_map Utf8.encode).ge each
  have feed : [lineFeed] = Utf8.encode ['\n'] := by decide
  rw [rename, ← same, feed, ← Utf8.encode_intercalate, Utf8.decodeLossy_encode,
    String.toList_ofList]

/-- Each row becomes a line. -/
theorem exists_toLine_of_mem (number : Nat) {all : List (List UInt8)} {row : List UInt8}
    (mem : row ∈ all) : ∃ n last, Row.toLine n last row ∈ linesFrom number all := by
  fun_induction linesFrom number all with
  | case1 => cases mem
  | case2 number other =>
    rw [List.mem_singleton.1 mem]
    exact ⟨_, _, List.mem_cons_self⟩
  | case3 number other rows _ ih =>
    rcases List.mem_cons.1 mem with rfl | mem
    · exact ⟨_, _, List.mem_cons_self⟩
    · obtain ⟨n, last, inside⟩ := ih mem
      exact ⟨n, last, List.mem_cons_of_mem _ inside⟩

/-- **A text under other names has the same lines under other names.** -/
theorem lines_rename (names : ∀ w ∈ labelNames text, IsName (ρ w)) :
    lines (Utf8.encode (rename ρ text).toList) =
      (lines (Utf8.encode text.toList)).map (Line.rename ρ) := by
  have named : ∀ l ∈ lines (Utf8.encode text.toList), ∀ w ∈ l.labelNames, IsName (ρ w) :=
    fun l inside w mem => names w (List.mem_flatMap.2 ⟨l, inside, mem⟩)
  have clean : ∀ row ∈ (rows (Utf8.encode text.toList)).map (Row.rename ρ none),
      lineFeed ∉ row := by
    rw [List.forall_mem_map]
    intro row mem
    obtain ⟨n, last, inside⟩ := exists_toLine_of_mem 1 mem
    exact Row.lineFeed_not_mem_rename (lineFeed_not_mem_of_mem_rows mem) (named _ inside)
  rw [lines, encode_rename, rows_intercalate (by simpa using rows_ne_nil _) clean,
    linesFrom_rename named]
  rfl

/-- **What labels are called does not matter.** A text whose labels are renamed, each to a name and
no two to the same, assembles exactly if the text itself does, and then to the same program. -/
theorem assemble_rename_iff (names : ∀ w ∈ labelNames text, IsName (ρ w))
    (injective : Set.InjOn ρ {w | w ∈ labelNames text}) (p : Program) :
    assemble (rename ρ text) = .ok p ↔ assemble text = .ok p := by
  have renamed : assemble (rename ρ text) =
      assembleLines ((lines (Utf8.encode text.toList)).map (Line.rename ρ)) := by
    rw [← lines_rename names]
    rfl
  rw [renamed, assembleLines_rename_iff newline_not_mem_lines injective]
  rfl

/-- Other names for the labels of `routineText`, one of them taken from the other label and one the
word of a tag. -/
def otherName (w : String) : String := if w = "loop" then "done" else "reg"

/-- The text of `routineText` with them. -/
def renamedText : String :=
  "entrypoint done\ndone:\n  zjmp reg ; leaves\n\n  call done\nreg:\n  halt\nentrypoint reg"

theorem assemble_rename_iff_routine :
    labelNames routineText = ["loop", "loop", "done", "loop", "done", "done"] ∧
      rename otherName routineText = renamedText ∧
      assemble (rename otherName routineText) = .ok routineProgram := by
  have labels : labelNames routineText = ["loop", "loop", "done", "loop", "done", "done"] := by
    decide +kernel
  refine ⟨labels, by decide +kernel, ?_⟩
  have names : ∀ w ∈ labelNames routineText, IsName (otherName w) := by
    have each : ∀ w ∈ ["loop", "loop", "done", "loop", "done", "done"],
        Row.isWordText (otherName w).toList ∧ Token.ofWord (otherName w) = .name (otherName w) := by
      decide +kernel
    rw [labels]
    exact fun w mem => ⟨.of_check (each w mem).1, (each w mem).2⟩
  have injective : Set.InjOn otherName {w | w ∈ labelNames routineText} := by
    have each : ∀ v ∈ ["loop", "loop", "done", "loop", "done", "done"],
        ∀ w ∈ ["loop", "loop", "done", "loop", "done", "done"],
        otherName v = otherName w → v = w := by decide +kernel
    rw [labels]
    exact fun v hv w hw => each v hv w hw
  exact (assemble_rename_iff names injective routineProgram).2 assemble_routineText

end StackLang.Assembly
