import StackLang.Proofs.Source.Spellings

/-!
# The lexer and its slices

The lexer moves a cursor through a text byte by byte. What it gives it makes of bytes and of slices
of the text: of all that is unread, of the name and the digits of a directive, of a word and of a
number. `slicedText` is the lexer with its cursor, and tells the slices that it has taken, those in
front of a fault included. It reads every text the way `scanText` does, `slicedText_eq`.
-/

namespace StackLang.Source

open Numeric Text

/-! ## Slices -/

/-- The part of a text from one position up to another. -/
structure Slice where
  start : Nat
  stop : Nat
deriving DecidableEq, Repr

/-- What a part of the lexer gives, and the slices that it has taken in order. -/
structure Sliced (α : Type) where
  slices : List Slice
  result : Except Cause α

namespace Sliced

variable {α β : Type}

instance : Monad Sliced where
  pure a := ⟨[], .ok a⟩
  bind x f :=
    match x.result with
    | .ok a => ⟨x.slices ++ (f a).slices, (f a).result⟩
    | .error cause => ⟨x.slices, .error cause⟩

/-- The end of the lexer at a fault. -/
def fail (cause : Cause) : Sliced α := ⟨[], .error cause⟩

/-- Takes a slice of a text and gives its bytes. -/
def slice (source : List UInt8) (start stop : Nat) : Sliced (List UInt8) :=
  ⟨[⟨start, stop⟩], .ok (source.extract start stop)⟩

@[simp] theorem result_pure (a : α) : (pure a : Sliced α).result = .ok a := rfl

@[simp] theorem result_fail (cause : Cause) : (fail cause : Sliced α).result = .error cause := rfl

@[simp] theorem result_slice (source : List UInt8) (start stop : Nat) :
    (slice source start stop).result = .ok (source.extract start stop) := rfl

@[simp] theorem result_bind (x : Sliced α) (f : α → Sliced β) :
    (x >>= f).result = x.result >>= fun a => (f a).result := by
  change (match x.result with
    | .ok a => (⟨x.slices ++ (f a).slices, (f a).result⟩ : Sliced β)
    | .error cause => ⟨x.slices, .error cause⟩).result = _
  cases x.result <;> rfl

theorem mem_slices_bind {x : Sliced α} {f : α → Sliced β} {s : Slice}
    (taken : s ∈ (x >>= f).slices) :
    s ∈ x.slices ∨ ∃ a, x.result = .ok a ∧ s ∈ (f a).slices := by
  change s ∈ (match x.result with
    | .ok a => (⟨x.slices ++ (f a).slices, (f a).result⟩ : Sliced β)
    | .error cause => ⟨x.slices, .error cause⟩).slices at taken
  split at taken
  · rename_i a result
    obtain first | later := List.mem_append.1 taken
    · exact .inl first
    · exact .inr ⟨a, result, later⟩
  · exact .inl taken

end Sliced

open Sliced

/-! ## The lexer -/

namespace Lexeme

/-- What comes behind the name of a directive, with the cursor behind its closing quote. -/
def slicedRow (source : List UInt8) (cursor : Nat) (name : List UInt8) :
    Sliced (Content × Nat) := do
  if source[cursor]? = some (toByte ' ') then
    let unread ← slice source (cursor + 1) source.length
    let more := (unread.takeWhile (· != lineFeed)).length
    let digits ← slice source (cursor + 1) (cursor + 1 + more)
    if !digits.isEmpty && digits.all isDigit then
      let lineEnd := if more < unread.length then 1 else 0
      match Utf8.decode? name with
      | some file =>
        let row := Numeral.saturating 10 (asciiText digits)
        return (.directive (String.ofList file) row, name.length + more + 3 + lineEnd)
      | none => fail .brokenCharacter
    else fail .invalidDirective
  else fail .invalidDirective

/-- A directive, with the cursor behind its at sign. -/
def slicedDirective (source : List UInt8) (cursor : Nat) : Sliced (Content × Nat) := do
  if source[cursor]? = some (toByte '"') then
    let unread ← slice source (cursor + 1) source.length
    let size := (unread.takeWhile (ofByte · != '"')).length
    if size < unread.length then
      let name ← slice source (cursor + 1) (cursor + 1 + size)
      slicedRow source (cursor + size + 2) name
    else fail .invalidDirective
  else fail .invalidDirective

/-- A number whose first digit is at the cursor. The digits behind a radix mark are taken one by
one. -/
def slicedNumber (source : List UInt8) (cursor : Nat) (b : UInt8) : Sliced (Content × Nat) := do
  let rest := source.drop (cursor + 1)
  let mark := if ofByte b = '0' then rest.head?.bind radix? else none
  match mark with
  | some _ => return (.token (number b rest).1, (number b rest).2)
  | none =>
    let more := (rest.takeWhile isNumber).length
    let text ← slice source cursor (cursor + 1 + more)
    if (asciiText text).contains '.' then
      let front := (beforeSecondPoint (asciiText text)).length
      let point ← slice source cursor (cursor + front)
      match Decimal.read? (asciiText point) with
      | some d => return (.token (.float (d.toBinary .double)), more)
      | none => return (.token (.float 0), more)
    else return (.token (.integer (Numeral.saturating 10 (asciiText text))), more)

/-- A lexeme that starts with `b` at the cursor. Blanks, zero bytes, literals and marks are taken
without a slice. -/
def sliced (source : List UInt8) (cursor : Nat) (b : UInt8) : Sliced (Content × Nat) := do
  let rest := source.drop (cursor + 1)
  if isBlank b || b = 0 || ofByte b = '"' || ofByte b = '\'' then
    ⟨[], scan b rest⟩
  else if ofByte b = '@' then slicedDirective source (cursor + 1)
  else if ofByte b = '/' && rest.head?.map ofByte = some '/' then
    let unread ← slice source (cursor + 1) source.length
    return (.comment, (unread.takeWhile (· != lineFeed)).length)
  else if (ofByte b).isAlpha then
    let more := (rest.takeWhile isWord).length
    let word ← slice source cursor (cursor + 1 + more)
    return (.token (.ofWord (String.ofList (asciiText word))), more)
  else if isDigit b then slicedNumber source cursor b
  else
    match mark? b rest with
    | some (m, length) => return (.token (.mark m), length)
    | none =>
      match ← slice source cursor source.length with
      | [] => fail .brokenCharacter
      | a :: unread =>
        match (Utf8.scan a unread).1 with
        | some c => fail (.unexpectedCharacter c)
        | none => fail .brokenCharacter

end Lexeme

/-- The slices, the lexemes and the fault of a text from the cursor on. -/
def slicedLexemes (source : List UInt8) (cursor : Nat) :
    List Slice × List Lexeme × Option Cause :=
  if inside : cursor < source.length then
    let read := Lexeme.sliced source cursor source[cursor]
    match read.result with
    | .error cause => (read.slices, [], some cause)
    | .ok (content, length) =>
      let (slices, xs, fault) := slicedLexemes source (cursor + 1 + length)
      (read.slices ++ slices,
        ⟨content, source.extract cursor (cursor + 1 + length)⟩ :: xs, fault)
  else ([], [], none)
termination_by source.length - cursor

/-- The slices and the scan of the text of the file `file`. -/
def slicedText (file source : String) : List Slice × Scan :=
  let (slices, xs, fault) := slicedLexemes (Utf8.encode source.toList) 0
  (slices, .ofLexemes (.start file) fault xs)

/-! ## It is the lexer -/

namespace Lexeme

variable {source : List UInt8} {cursor : Nat} {b : UInt8} {rest : List UInt8}

theorem extract_length (source : List UInt8) (start : Nat) :
    source.extract start source.length = source.drop start := by
  rw [List.extract_eq_take_drop, List.take_of_length_le (by rw [List.length_drop])]

theorem extract_add (source : List UInt8) (start size : Nat) :
    source.extract start (start + size) = (source.drop start).take size := by
  rw [List.extract_eq_take_drop, Nat.add_sub_cancel_left]

theorem drop_succ (shape : source.drop cursor = b :: rest) : source.drop (cursor + 1) = rest := by
  rw [← List.drop_drop, shape]
  rfl

theorem drop_of_getElem? (byte : source[cursor]? = some b) :
    source.drop cursor = b :: source.drop (cursor + 1) := by
  obtain ⟨inside, rfl⟩ := List.getElem?_eq_some_iff.1 byte
  exact List.drop_eq_getElem_cons inside

theorem getElem?_of_drop (shape : source.drop cursor = rest) (k : Nat) :
    source[cursor + k]? = rest[k]? := by
  rw [← shape, List.getElem?_drop]

theorem take_length_takeWhile (p : UInt8 → Bool) (text : List UInt8) :
    text.take (text.takeWhile p).length = text.takeWhile p :=
  (List.prefix_iff_eq_take.1 (List.takeWhile_prefix p)).symm

theorem result_slicedRow {name : List UInt8} {closing space : UInt8}
    (named : (name ++ closing :: space :: rest).takeWhile (ofByte · != '"') = name)
    (shape : source.drop cursor = space :: rest) :
    (slicedRow source cursor name).result =
      directive (toByte '"' :: (name ++ closing :: space :: rest)) := by
  have first : source[cursor]? = some space := getElem?_of_drop shape 0
  have unread := drop_succ shape
  have gap : space = toByte ' ' ↔ ofByte space = ' ' := (ofByte_eq_iff (by decide)).symm
  have quote : ofByte (toByte '"') = '"' := by decide
  unfold slicedRow directive directiveParts?
  simp only [first, Option.some.injEq, gap, named, List.drop_left, quote]
  by_cases apart : ofByte space = ' '
  · rw [if_pos apart]
    simp only [result_bind, result_slice, ok_bind, extract_length, unread, extract_add,
      take_length_takeWhile, apart, decide_true, Bool.true_and]
    generalize rest.takeWhile (· != lineFeed) = digits
    by_cases numbered : (!digits.isEmpty && digits.all isDigit) = true
    · rw [if_pos numbered, if_pos numbered]
      dsimp only
      cases Utf8.decode? name <;> rfl
    · rw [if_neg numbered, if_neg numbered]
      rfl
  · rw [if_neg apart]
    simp [apart]

theorem result_slicedDirective (source : List UInt8) (cursor : Nat) :
    (slicedDirective source cursor).result = directive (source.drop cursor) := by
  unfold slicedDirective
  cases shape : source.drop cursor with
  | nil =>
    have missing : source[cursor]? = none := getElem?_of_drop shape 0
    rw [missing]
    rfl
  | cons quote rest =>
    have first : source[cursor]? = some quote := getElem?_of_drop shape 0
    have unread := drop_succ shape
    rw [first]
    by_cases quoted : quote = toByte '"'
    · subst quoted
      obtain ⟨behind, cut, -, -⟩ := exists_takeWhile (ofByte · != '"') rest
      rw [if_pos rfl]
      simp only [result_bind, result_slice, ok_bind, extract_length, unread]
      generalize named : rest.takeWhile (ofByte · != '"') = name at cut ⊢
      subst cut
      match behind with
      | [] =>
        rw [directive, directiveParts?, named]
        simp
      | [closing] =>
        have missing : source[cursor + name.length + 2]? = none := by
          rw [Nat.add_assoc, getElem?_of_drop shape]
          simp
        rw [directive, directiveParts?, named]
        simp [slicedRow, missing]
      | closing :: space :: rest =>
        have behind : source.drop (cursor + name.length + 2) = space :: rest := by
          rw [Nat.add_assoc, ← List.drop_drop, shape]
          simp
        rw [if_pos (by simp), result_bind, result_slice, ok_bind, extract_add, unread,
          List.take_left, result_slicedRow named behind]
    · have other : ofByte quote ≠ '"' := fun same => quoted ((ofByte_eq_iff (by decide)).1 same)
      have refused : directiveParts? (quote :: rest) = none := by
        unfold directiveParts?
        dsimp only
        split
        · simp [other]
        · rfl
      rw [if_neg (by simpa using quoted), directive, refused]
      rfl

theorem prefix_beforeSecondPoint (text : List Char) : beforeSecondPoint text <+: text := by
  have whole := List.takeWhile_append_dropWhile (p := (· != '.')) (l := text)
  unfold beforeSecondPoint
  dsimp only
  split
  · rename_i point rest behind
    have front : point :: rest.takeWhile (· != '.') <+: point :: rest :=
      List.cons_prefix_cons.2 ⟨rfl, List.takeWhile_prefix _⟩
    have both := (List.prefix_append_right_inj (text.takeWhile (· != '.'))).2 front
    rw [behind] at whole
    rwa [whole] at both
  · exact List.takeWhile_prefix _

theorem extract_of_drop (shape : source.drop cursor = b :: rest) (size : Nat) :
    source.extract cursor (cursor + 1 + size) = b :: rest.take size := by
  rw [Nat.add_assoc, extract_add, shape, Nat.add_comm 1, List.take_succ_cons]

theorem result_slicedNumber (shape : source.drop cursor = b :: rest) :
    (slicedNumber source cursor b).result =
      .ok (.token (number b rest).1, (number b rest).2) := by
  unfold slicedNumber
  dsimp only
  rw [drop_succ shape]
  cases mark : (if ofByte b = '0' then rest.head?.bind radix? else none) with
  | some radix => rfl
  | none =>
    have read : number b rest = (decimalToken (asciiText (b :: rest.takeWhile isNumber)),
        (rest.takeWhile isNumber).length) := by
      unfold number
      simp only [mark]
    simp only [result_bind, result_slice, ok_bind, extract_of_drop shape, take_length_takeWhile]
    rw [read, decimalToken]
    split
    · -- The text in front of the second point is a beginning of the number.
      have front : asciiText (source.extract cursor (cursor +
          (beforeSecondPoint (asciiText (b :: rest.takeWhile isNumber))).length)) =
            beforeSecondPoint (asciiText (b :: rest.takeWhile isNumber)) := by
        have number : b :: rest.takeWhile isNumber <+: b :: rest :=
          List.cons_prefix_cons.2 ⟨rfl, List.takeWhile_prefix _⟩
        have whole := (prefix_beforeSecondPoint _).trans (number.map ofByte)
        rw [extract_add, shape, asciiText, List.map_take]
        exact (List.prefix_iff_eq_take.1 whole).symm
      simp only [result_bind, result_slice, ok_bind, front]
      cases Decimal.read? (beforeSecondPoint (asciiText (b :: rest.takeWhile isNumber))) <;> rfl
    · rfl

theorem result_sliced (shape : source.drop cursor = b :: rest) :
    (sliced source cursor b).result = scan b rest := by
  have unread := drop_succ shape
  unfold sliced
  dsimp only
  rw [unread]
  split
  · rfl
  rename_i plain
  simp only [Bool.or_eq_true, decide_eq_true_eq, not_or, Bool.not_eq_true] at plain
  obtain ⟨⟨⟨blank, zero⟩, string⟩, char⟩ := plain
  simp only [scan, blank, zero, string, char, Bool.false_eq_true, if_false]
  split
  · rw [result_slicedDirective, unread]
  split
  · simp only [result_bind, result_slice, ok_bind, extract_length, unread, result_pure]
  split
  · simp only [result_bind, result_slice, ok_bind, extract_of_drop shape, take_length_takeWhile,
      result_pure]
  split
  · exact result_slicedNumber shape
  cases mark? b rest with
  | some read => rfl
  | none =>
    simp only [result_bind, result_slice, ok_bind, extract_length, shape]
    cases (Utf8.scan b rest).1 <;> rfl

end Lexeme

theorem slicedLexemes_eq (source : List UInt8) (cursor : Nat) :
    (slicedLexemes source cursor).2 = lexemes (source.drop cursor) := by
  fun_induction slicedLexemes source cursor with
  | case1 cursor inside read cause failed =>
    have shape := List.drop_eq_getElem_cons inside
    have scanned := Lexeme.result_sliced shape
    rw [shape, lexemes, ← scanned, failed]
  | case2 cursor inside read content length found slices xs fault behind ih =>
    have shape := List.drop_eq_getElem_cons inside
    have scanned := Lexeme.result_sliced shape
    rw [shape, lexemes, ← scanned, found]
    dsimp only
    rw [List.drop_drop, ← ih, behind, Lexeme.extract_of_drop shape]
  | case3 cursor outside =>
    rw [List.drop_of_length_le (Nat.not_lt.1 outside), lexemes]

/-- **The lexer with its slices is the lexer.** -/
theorem slicedText_eq (file source : String) : (slicedText file source).2 = scanText file source := by
  have same := slicedLexemes_eq (Utf8.encode source.toList) 0
  rw [List.drop_zero] at same
  unfold slicedText scanText scanBytes
  rw [← same]

/-- A directive takes what is unread behind its quote, its name, what is unread behind its space and
its digits. -/
example : (Lexeme.sliced (Utf8.encode "@\"\u00e9\" 12\n".toList) 0 (toByte '@')).slices =
    [⟨2, 9⟩, ⟨2, 4⟩, ⟨6, 9⟩, ⟨6, 8⟩] := by
  decide +kernel

end StackLang.Source
