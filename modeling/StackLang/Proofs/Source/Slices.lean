import StackLang.Proofs.Source.Cursor

/-!
# No slice cuts a character

A slice of a text may begin and end only where a character does. The cursor of the lexer moves byte
by byte, and inside a literal it stands in the middle of characters; but in front of each lexeme it
is between two of them, since a lexeme ends with a byte of an ASCII character or in front of one.
Inside a lexeme a slice begins and ends next to such a byte, at the cursor or at the end of the
text. So none of them cuts a character, `whole_of_slicedText`.
-/

namespace StackLang.Source

open Numeric Text

/-! ## Positions -/

section Positions

variable {source : String} {n : Nat} {b : UInt8}

/-- A position between two characters is the length of the bytes of the characters before it. -/
theorem isValid_iff : (String.Pos.Raw.mk n).IsValid source ↔
    ∃ s t, source.toList = s ++ t ∧ (Utf8.encode s).length = n := by
  rw [String.Pos.Raw.isValid_iff_exists_append]
  constructor
  · rintro ⟨s, t, rfl, same⟩
    refine ⟨s.toList, t.toList, String.toList_append, ?_⟩
    rw [Utf8.length_encode]
    exact (congrArg String.Pos.Raw.byteIdx same).symm
  · rintro ⟨s, t, split, rfl⟩
    refine ⟨String.ofList s, String.ofList t, ?_, ?_⟩
    · rw [← String.ofList_append, ← split, String.ofList_toList]
    · have length := Utf8.length_encode (String.ofList s)
      rw [String.toList_ofList] at length
      rw [length]
      rfl

/-- What is behind such a position are the bytes of a text. -/
theorem exists_encode_drop (valid : (String.Pos.Raw.mk n).IsValid source) :
    ∃ t, (Utf8.encode source.toList).drop n = Utf8.encode t := by
  obtain ⟨s, t, split, rfl⟩ := isValid_iff.1 valid
  exact ⟨t, by rw [split, Utf8.encode_append, List.drop_left]⟩

/-- What is between two such positions are the bytes of a text too. -/
theorem exists_encode_extract {start stop : Nat} (ordered : start ≤ stop)
    (first : (String.Pos.Raw.mk start).IsValid source)
    (last : (String.Pos.Raw.mk stop).IsValid source) :
    ∃ t, (Utf8.encode source.toList).extract start stop = Utf8.encode t := by
  obtain ⟨before, rest, split, rfl⟩ := isValid_iff.1 first
  obtain ⟨front, behind, split', rfl⟩ := isValid_iff.1 last
  rw [List.extract_eq_take_drop, split', Utf8.encode_append]
  rw [split'] at split
  obtain ⟨more, rfl, -⟩ | ⟨middle, rfl, -⟩ := List.append_eq_append_iff.1 split
  · have none : (Utf8.encode front).length - (Utf8.encode (front ++ more)).length = 0 := by
      rw [Utf8.encode_append, List.length_append]
      omega
    exact ⟨[], by rw [none]; rfl⟩
  · refine ⟨middle, ?_⟩
    rw [Utf8.encode_append, List.length_append, Nat.add_sub_cancel_left, List.append_assoc,
      List.drop_left, List.take_left]

theorem isValid_length :
    (String.Pos.Raw.mk (Utf8.encode source.toList).length).IsValid source :=
  isValid_iff.2 ⟨source.toList, [], (List.append_nil _).symm, rfl⟩

/-- The byte of an ASCII character has characters on both of its sides. -/
theorem isValid_of_ascii (byte : (Utf8.encode source.toList)[n]? = some b) (low : b.toNat < 128) :
    (String.Pos.Raw.mk n).IsValid source ∧ (String.Pos.Raw.mk (n + 1)).IsValid source := by
  obtain ⟨inside, same⟩ := List.getElem?_eq_some_iff.1 byte
  have whole : Utf8.encode source.toList = (Utf8.encode source.toList).take n ++
      b :: (Utf8.encode source.toList).drop (n + 1) := by
    rw [← same, ← List.drop_eq_getElem_cons, List.take_append_drop]
  obtain ⟨s, t, split, front, -⟩ := Utf8.exists_split_of_ascii low whole
  have length : (Utf8.encode s).length = n := by
    rw [← front, List.length_take]
    omega
  refine ⟨isValid_iff.2 ⟨s, _, split, length⟩, ?_⟩
  refine isValid_iff.2 ⟨s ++ [ofByte b], t, by rw [split]; simp, ?_⟩
  rw [Utf8.encode_append, Utf8.encode_cons_ascii (isAscii_ofByte low), List.length_append, length]
  rfl

/-- A run of bytes that only bytes of ASCII characters end, ends in front of a character. -/
theorem isValid_takeWhile {p : UInt8 → Bool} (inside : n ≤ (Utf8.encode source.toList).length)
    (stops : ∀ b, p b = false → b.toNat < 128) :
    (String.Pos.Raw.mk (n + (((Utf8.encode source.toList).drop n).takeWhile p).length)).IsValid
      source := by
  obtain ⟨rest, cut, -, ends⟩ := Lexeme.exists_takeWhile p ((Utf8.encode source.toList).drop n)
  generalize ((Utf8.encode source.toList).drop n).takeWhile p = run at cut
  cases rest with
  | nil =>
    have length := congrArg List.length cut
    rw [List.append_nil, List.length_drop] at length
    have last : n + run.length = (Utf8.encode source.toList).length := by omega
    rw [last]
    exact isValid_length
  | cons b rest =>
    have byte : (Utf8.encode source.toList)[n + run.length]? = some b := by
      rw [← List.getElem?_drop, cut]
      simp
    exact (isValid_of_ascii byte (stops b (ends b rfl))).1

/-- In a run of bytes of ASCII characters each byte is a character. -/
theorem isValid_of_run {p : UInt8 → Bool} (valid : (String.Pos.Raw.mk n).IsValid source)
    (all : ∀ b, p b → b.toNat < 128) {k : Nat}
    (le : k ≤ (((Utf8.encode source.toList).drop n).takeWhile p).length) :
    (String.Pos.Raw.mk (n + k)).IsValid source := by
  obtain ⟨rest, cut, run, -⟩ := Lexeme.exists_takeWhile p ((Utf8.encode source.toList).drop n)
  generalize ((Utf8.encode source.toList).drop n).takeWhile p = front at cut run le
  cases k with
  | zero => exact valid
  | succ k =>
    have byte : (Utf8.encode source.toList)[n + k]? = some front[k] := by
      rw [← List.getElem?_drop, cut, List.getElem?_append_left le, List.getElem?_eq_getElem]
    exact (isValid_of_ascii byte (all _ (run _ (List.getElem_mem _)))).2

end Positions

/-! ## Slices -/

/-- The slice begins and ends between characters of the text. -/
structure Slice.Whole (source : String) (s : Slice) : Prop where
  ordered : s.start ≤ s.stop
  start : (String.Pos.Raw.mk s.start).IsValid source
  stop : (String.Pos.Raw.mk s.stop).IsValid source

/-- The slices begin and end between characters, and no character was found broken. -/
structure Sliced.Sound {α : Type} (source : String) (x : Sliced α) : Prop where
  whole : ∀ s ∈ x.slices, s.Whole source
  unbroken : x.result ≠ .error .brokenCharacter

namespace Sliced

variable {α β : Type} {source : String}

theorem sound_pure (a : α) : (pure a : Sliced α).Sound source := ⟨nofun, nofun⟩

theorem sound_fail {cause : Cause} (other : cause ≠ .brokenCharacter) :
    (fail cause : Sliced α).Sound source :=
  ⟨nofun, fun same => other (Except.error.inj same)⟩

theorem sound_slice {bytes : List UInt8} {start stop : Nat} (ordered : start ≤ stop)
    (first : (String.Pos.Raw.mk start).IsValid source)
    (last : (String.Pos.Raw.mk stop).IsValid source) : (slice bytes start stop).Sound source := by
  refine ⟨fun s taken => ?_, nofun⟩
  obtain rfl := List.mem_singleton.1 taken
  exact ⟨ordered, first, last⟩

theorem sound_bind {x : Sliced α} {f : α → Sliced β} (hx : x.Sound source)
    (hf : ∀ a, x.result = .ok a → (f a).Sound source) : (x >>= f).Sound source := by
  constructor
  · intro s taken
    obtain first | ⟨a, result, later⟩ := mem_slices_bind taken
    · exact hx.whole s first
    · exact (hf a result).whole s later
  · rw [result_bind]
    have unbroken := hx.unbroken
    cases result : x.result with
    | error cause =>
      rw [result] at unbroken
      rintro ⟨⟩
      exact unbroken rfl
    | ok a => exact (hf a result).unbroken

end Sliced

open Sliced

namespace Lexeme

variable {source : String} {cursor : Nat} {b : UInt8}

theorem lt_of_isWord (h : isWord b) : b.toNat < 128 := by
  revert h
  exact forall_byte (p := fun b => isWord b → b.toNat < 128) (by decide +kernel) b

theorem lt_of_isNumber (h : isNumber b) : b.toNat < 128 := by
  revert h
  exact forall_byte (p := fun b => isNumber b → b.toNat < 128) (by decide +kernel) b

theorem lt_of_isBlank (h : isBlank b) : b.toNat < 128 := by
  revert h
  exact forall_byte (p := fun b => isBlank b → b.toNat < 128) (by decide +kernel) b

theorem lt_of_radix {radix : Nat} (h : radix? b = some radix) : b.toNat < 128 := by
  unfold radix? at h
  split at h
  · rename_i hex
    obtain rfl := (ofByte_eq_iff (by decide)).1 hex
    decide
  split at h
  · rename_i binary
    obtain rfl := (ofByte_eq_iff (by decide)).1 binary
    decide
  · cases h

theorem lt_length (byte : (Utf8.encode source.toList)[cursor]? = some b) :
    cursor < (Utf8.encode source.toList).length := (List.getElem?_eq_some_iff.1 byte).1

/-- A slice of all that is unread behind the byte of an ASCII character. -/
theorem sound_unread (byte : (Utf8.encode source.toList)[cursor]? = some b)
    (low : b.toNat < 128) :
    (slice (Utf8.encode source.toList) (cursor + 1) (Utf8.encode source.toList).length).Sound
      source :=
  sound_slice (lt_length byte) (isValid_of_ascii byte low).2 isValid_length

theorem sound_slicedRow (name : List Char) :
    (slicedRow (Utf8.encode source.toList) cursor (Utf8.encode name)).Sound source := by
  unfold slicedRow
  split
  · rename_i gap
    refine sound_bind (sound_unread gap (by decide)) fun behind same => ?_
    obtain rfl := Except.ok.inj same
    rw [extract_length]
    have feed : ∀ b : UInt8, (b != lineFeed) = false → b.toNat < 128 := by
      intro b stops
      obtain rfl : b = lineFeed := by simpa using stops
      decide
    have start := (isValid_of_ascii gap (by decide)).2
    have stop := isValid_takeWhile (lt_length gap) feed
    refine sound_bind (sound_slice (Nat.le_add_right _ _) start stop) fun digits _ => ?_
    split
    · rw [Utf8.decode?_encode]
      exact sound_pure _
    · exact sound_fail (by decide)
  · exact sound_fail (by decide)

theorem sound_slicedDirective :
    (slicedDirective (Utf8.encode source.toList) cursor).Sound source := by
  unfold slicedDirective
  split
  · rename_i quote
    refine sound_bind (sound_unread quote (by decide)) fun behind same => ?_
    obtain rfl := Except.ok.inj same
    rw [extract_length]
    have closing : ∀ b : UInt8, (ofByte b != '"') = false → b.toNat < 128 := by
      intro b stops
      obtain rfl : b = toByte '"' := (ofByte_eq_iff (by decide)).1 (by simpa using stops)
      decide
    have start := (isValid_of_ascii quote (by decide)).2
    have stop := isValid_takeWhile (lt_length quote) closing
    dsimp only
    split
    · refine sound_bind (sound_slice (Nat.le_add_right _ _) start stop) fun name same => ?_
      obtain rfl := Except.ok.inj same
      obtain ⟨file, text⟩ := exists_encode_extract (Nat.le_add_right _ _) start stop
      rw [text]
      exact sound_slicedRow file
    · exact sound_fail (by decide)
  · exact sound_fail (by decide)

/-- The second point of a number is inside it or behind it. -/
theorem isValid_secondPoint (byte : (Utf8.encode source.toList)[cursor]? = some b)
    (low : b.toNat < 128) :
    (String.Pos.Raw.mk (cursor + (beforeSecondPoint (asciiText
      (b :: ((Utf8.encode source.toList).drop (cursor + 1)).takeWhile isNumber))).length)).IsValid
        source := by
  obtain ⟨start, next⟩ := isValid_of_ascii byte low
  have short := (prefix_beforeSecondPoint (asciiText
    (b :: ((Utf8.encode source.toList).drop (cursor + 1)).takeWhile isNumber))).length_le
  rw [asciiText, List.length_map, List.length_cons, ← asciiText] at short
  generalize (beforeSecondPoint _).length = size at short
  cases size with
  | zero => exact start
  | succ size =>
    rw [← Nat.add_assoc, Nat.add_right_comm]
    exact isValid_of_run (p := isNumber) next (fun _ => lt_of_isNumber) (by omega)

theorem sound_slicedNumber (byte : (Utf8.encode source.toList)[cursor]? = some b)
    (digit : isDigit b) : (slicedNumber (Utf8.encode source.toList) cursor b).Sound source := by
  have low : b.toNat < 128 := lt_of_isNumber (by simp [isNumber, digit])
  obtain ⟨start, next⟩ := isValid_of_ascii byte low
  have shape := drop_of_getElem? byte
  unfold slicedNumber
  dsimp only
  split
  · exact sound_pure _
  · have stop := isValid_of_run next (fun _ => lt_of_isNumber) (Nat.le_refl _)
    refine sound_bind (sound_slice (by omega) start stop) fun text same => ?_
    obtain rfl := Except.ok.inj same
    rw [extract_of_drop shape, take_length_takeWhile]
    split
    · have point := isValid_secondPoint byte low
      refine sound_bind (sound_slice (Nat.le_add_right _ _) start point) fun text _ => ?_
      split <;> exact sound_pure _
    · exact sound_pure _

theorem literal_unbroken (delimiter : UInt8) (bytes : List UInt8) :
    literal delimiter bytes ≠ .error .brokenCharacter := by
  intro failed
  obtain ⟨_, _, _, _, -, -, -, same⟩ := exists_of_literal_error failed
  cases same

/-- Literals may hold any bytes. -/
theorem token_unbroken {delimiter : UInt8} {token : Literal → Except Cause TokenKind}
    (h : ∀ l, token l ≠ .error .brokenCharacter) (bytes : List UInt8) : (do
      let l ← literal delimiter bytes
      return (Content.token (← token l), l.length)) ≠ .error .brokenCharacter := by
  intro failed
  rcases bind_eq_error_iff.1 failed with unread | ⟨l, -, failed⟩
  · exact literal_unbroken delimiter bytes unread
  rcases bind_eq_error_iff.1 failed with none | ⟨kind, -, failed⟩
  · exact h l none
  · cases failed

theorem scan_unbroken (rest : List UInt8)
    (plain : (isBlank b || b = 0 || ofByte b = '"' || ofByte b = '\'') = true) :
    scan b rest ≠ .error .brokenCharacter := by
  simp only [Bool.or_eq_true, decide_eq_true_eq] at plain
  obtain ((blank | rfl) | string) | char := plain
  · unfold scan
    rw [if_pos blank]
    nofun
  · unfold scan
    rw [if_neg (by decide), if_pos rfl]
    nofun
  · obtain rfl := (ofByte_eq_iff (by decide)).1 string
    have unbroken (l : Literal) : stringToken l ≠ .error .brokenCharacter := by
      unfold stringToken
      split <;> nofun
    rw [scan_string]
    exact token_unbroken unbroken rest
  · obtain rfl := (ofByte_eq_iff (by decide)).1 char
    have unbroken (l : Literal) : charToken l ≠ .error .brokenCharacter := by
      unfold charToken
      split
      · nofun
      split <;> nofun
    rw [scan_char]
    exact token_unbroken unbroken rest

theorem sound_sliced (valid : (String.Pos.Raw.mk cursor).IsValid source)
    (byte : (Utf8.encode source.toList)[cursor]? = some b) :
    (sliced (Utf8.encode source.toList) cursor b).Sound source := by
  unfold sliced
  dsimp only
  split
  · rename_i plain
    refine ⟨fun s taken => ?_, scan_unbroken _ plain⟩
    cases taken
  split
  · exact sound_slicedDirective
  split
  · rename_i slashes
    simp only [Bool.and_eq_true, decide_eq_true_eq] at slashes
    obtain rfl := (ofByte_eq_iff (by decide)).1 slashes.1
    exact sound_bind (sound_unread byte (by decide)) fun _ _ => sound_pure _
  split
  · rename_i alpha
    have low : b.toNat < 128 := lt_of_isWord (by simp [isWord, Char.isAlphanum, alpha])
    obtain ⟨start, next⟩ := isValid_of_ascii byte low
    have stop := isValid_of_run next (fun _ => lt_of_isWord) (Nat.le_refl _)
    exact sound_bind (sound_slice (by omega) start stop) fun _ _ => sound_pure _
  split
  · rename_i digit
    exact sound_slicedNumber byte digit
  split
  · exact sound_pure _
  · have inside := Nat.le_of_lt (lt_length byte)
    refine sound_bind (sound_slice inside valid isValid_length) fun unread same => ?_
    obtain rfl := Except.ok.inj same
    -- The cursor is in front of a character, which is the one that is reported.
    obtain ⟨t, behind⟩ := exists_encode_drop valid
    rw [extract_length]
    rw [drop_of_getElem? byte] at behind ⊢
    obtain ⟨c, more, tail, -, -, scanned⟩ := Utf8.exists_first behind.symm
    dsimp only
    rw [scanned]
    refine sound_fail fun same => ?_
    cases same

/-! ## The cursor between two lexemes -/

/-- A lexeme ends with the byte of an ASCII character or in front of one, or it is the last. -/
theorem Spells.ends {content : Content} {bytes rest : List UInt8} (h : Spells content bytes rest) :
    (∃ front a, bytes = front ++ [a] ∧ a.toNat < 128) ∨ ∀ a ∈ rest.head?, a.toNat < 128 := by
  have last {b : UInt8} {more : List UInt8} (first : b.toNat < 128)
      (all : ∀ c ∈ more, c.toNat < 128) : ∃ front a, b :: more = front ++ [a] ∧ a.toNat < 128 := by
    have nonempty : b :: more ≠ [] := List.cons_ne_nil _ _
    refine ⟨_, _, (List.dropLast_concat_getLast nonempty).symm, ?_⟩
    obtain same | mem := List.mem_cons.1 (List.getLast_mem nonempty)
    · rwa [same]
    · exact all _ mem
  cases h with
  | blank blank => exact .inl ⟨[], _, rfl, lt_of_isBlank blank⟩
  | zero => exact .inl ⟨[], 0, rfl, by decide⟩
  | comment _ ends =>
    right
    intro a next
    have feed : a = lineFeed := by simpa using ends a next
    rw [feed]
    decide
  | directive _ _ ends =>
    obtain rfl | ⟨rfl, rfl⟩ := ends
    · exact .inl ⟨_, lineFeed, rfl, by decide⟩
    · exact .inr nofun
  | string => exact .inl ⟨_ :: _, toByte '"', rfl, by decide⟩
  | char => exact .inl ⟨_ :: _, toByte '\'', rfl, by decide⟩
  | word first all =>
    exact .inl (last (lt_of_isWord (by simp [isWord, Char.isAlphanum, first]))
      fun c mem => lt_of_isWord (all c mem))
  | decimal first all =>
    exact .inl (last (lt_of_isNumber (by simp [isNumber, first]))
      fun c mem => lt_of_isNumber (all c mem))
  | radix mark all =>
    exact .inl (last (by decide) (List.forall_mem_cons.2
      ⟨lt_of_radix mark, fun c mem => lt_of_isWord (all c mem)⟩))
  | @mark m =>
    have all : ∀ b ∈ m.name.toList.map toByte, b.toNat < 128 := by
      intro b mem
      obtain ⟨c, inside, rfl⟩ := List.mem_map.1 mem
      have ascii := m.isAscii_of_mem_name c inside
      rwa [toNat_toByte ascii]
    obtain ⟨b, more, text⟩ : ∃ b more, m.name.toList.map toByte = b :: more := by
      cases m <;> exact ⟨_, _, rfl⟩
    rw [text] at all ⊢
    obtain ⟨first, rest⟩ := List.forall_mem_cons.1 all
    exact .inl (last first rest)

/-- A lexeme takes whole characters. -/
theorem Spells.exists_text {content : Content} {bytes rest : List UInt8}
    (h : Spells content bytes rest) {text : List Char} (whole : Utf8.encode text = bytes ++ rest) :
    ∃ front back, text = front ++ back ∧ bytes = Utf8.encode front ∧ rest = Utf8.encode back := by
  obtain ⟨front, a, rfl, low⟩ | next := h.ends
  · rw [List.append_assoc, List.singleton_append] at whole
    obtain ⟨s, t, rfl, rfl, rfl⟩ := Utf8.exists_split_of_ascii low whole
    refine ⟨s ++ [ofByte a], t, by simp, ?_, rfl⟩
    rw [Utf8.encode_append, Utf8.encode_cons_ascii (isAscii_ofByte low), toByte_ofByte]
    rfl
  · cases rest with
    | nil => exact ⟨text, [], by simp, by rw [whole, List.append_nil], rfl⟩
    | cons a rest =>
      obtain ⟨s, t, rfl, rfl, rfl⟩ := Utf8.exists_split_of_ascii (next a rfl) whole
      refine ⟨s, ofByte a :: t, rfl, rfl, ?_⟩
      rw [Utf8.encode_cons_ascii (isAscii_ofByte (next a rfl)), toByte_ofByte]

/-- Behind a lexeme the cursor stands between two characters again. -/
theorem isValid_of_scan {content : Content} {length : Nat}
    (valid : (String.Pos.Raw.mk cursor).IsValid source)
    (byte : (Utf8.encode source.toList)[cursor]? = some b)
    (scanned : scan b ((Utf8.encode source.toList).drop (cursor + 1)) = .ok (content, length)) :
    (String.Pos.Raw.mk (cursor + 1 + length)).IsValid source := by
  obtain ⟨before, text, split, rfl⟩ := isValid_iff.1 valid
  obtain ⟨more, rest, cut, rfl, spelled⟩ := spells_of_scan scanned
  have shape := drop_of_getElem? byte
  rw [cut, split, Utf8.encode_append, List.drop_left] at shape
  obtain ⟨front, back, rfl, bytes, -⟩ := spelled.exists_text shape
  refine isValid_iff.2 ⟨before ++ front, back, by rw [split, List.append_assoc], ?_⟩
  rw [Utf8.encode_append, ← bytes, List.length_append, List.length_cons]
  omega

end Lexeme

/-! ## Texts -/

theorem whole_of_slicedLexemes {source : String} {cursor : Nat}
    (valid : (String.Pos.Raw.mk cursor).IsValid source) :
    (∀ s ∈ (slicedLexemes (Utf8.encode source.toList) cursor).1, s.Whole source) ∧
      (slicedLexemes (Utf8.encode source.toList) cursor).2.2 ≠ some .brokenCharacter := by
  generalize bytes : Utf8.encode source.toList = text
  fun_induction slicedLexemes text cursor with
  | case1 cursor inside read cause failed =>
    subst bytes
    have sound := Lexeme.sound_sliced valid (List.getElem?_eq_getElem inside)
    refine ⟨sound.whole, fun same => sound.unbroken ?_⟩
    rw [← Option.some.inj same, ← failed]
  | case2 cursor inside read content length found slices xs fault behind ih =>
    subst bytes
    have byte := List.getElem?_eq_getElem inside
    have sound := Lexeme.sound_sliced valid byte
    have scanned := Lexeme.result_sliced (Lexeme.drop_of_getElem? byte)
    have next := Lexeme.isValid_of_scan valid byte (scanned.symm.trans found)
    rw [behind] at ih
    obtain ⟨whole, unbroken⟩ := ih next
    exact ⟨fun s taken => (List.mem_append.1 taken).elim (sound.whole s) (whole s), unbroken⟩
  | case3 =>
    refine ⟨fun s taken => ?_, fun same => ?_⟩
    · cases taken
    · cases same

/-- **No slice of the lexer cuts a character.** Whatever characters a text holds, and whether or not
it can be read, each slice that the lexer takes begins and ends between two characters of the
text or at its ends. With these slices it reads the text as it is read. No character is found to be
broken. -/
theorem whole_of_slicedText (file source : String) :
    (∀ s ∈ (slicedText file source).1, s.Whole source) ∧
      (slicedText file source).2 = scanText file source ∧
      ∀ d, (scanText file source).tokens = .error d → d.cause ≠ .brokenCharacter := by
  have valid : (String.Pos.Raw.mk 0).IsValid source := isValid_iff.2 ⟨[], source.toList, rfl, rfl⟩
  obtain ⟨whole, unbroken⟩ := whole_of_slicedLexemes valid
  refine ⟨whole, slicedText_eq file source, fun d failed broken => unbroken ?_⟩
  rw [slicedLexemes_eq, List.drop_zero, ← broken]
  -- The fault of the lexemes is the one that the scan ends with.
  have kinds := Scan.kinds_ofLexemes (.start file) (lexemes (Utf8.encode source.toList)).2
    (lexemes (Utf8.encode source.toList)).1
  change (scanText file source).kinds = _ at kinds
  rw [Scan.kinds, failed] at kinds
  cases fault : (lexemes (Utf8.encode source.toList)).2 with
  | none =>
    rw [fault] at kinds
    cases kinds
  | some cause =>
    rw [fault] at kinds
    cases kinds
    rfl

end StackLang.Source
