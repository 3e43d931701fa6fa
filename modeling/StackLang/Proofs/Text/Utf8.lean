import Mathlib.Logic.Basic
import StackLang.Proofs.Text.Ascii

/-!
# Encoded texts are read back

The bytes of a character are scanned as that character whatever follows them, and only they are. So
the bytes of a text are decoded to the text, `Utf8.decode?_encode`, and bytes that are decoded to a
text are its bytes, `Utf8.encode_of_decode?`. No byte of a character but the line feed is the one
that ends a row: the rows of an encoded text are encoded texts again.
-/

namespace StackLang.Text.Utf8

variable {a b c d : UInt8} {rest : List UInt8}

/-! ## Bytes that form one character -/

theorem isTail_iff : isTail b ↔ 0x80 ≤ b.toNat ∧ b.toNat ≤ 0xBF := by
  simp [isTail, UInt8.le_iff_toNat_le]

theorem isSecondOfThree_iff : isSecondOfThree a b ↔
    isTail b ∧ (a.toNat = 0xE0 → 0xA0 ≤ b.toNat) ∧ (a.toNat = 0xED → b.toNat ≤ 0x9F) := by
  simp only [isSecondOfThree, Bool.and_eq_true, Bool.or_eq_true, bne_iff_ne, decide_eq_true_eq,
    ne_eq, ← UInt8.toNat_inj, UInt8.le_iff_toNat_le, ← imp_iff_not_or, and_assoc]
  rfl

theorem isSecondOfFour_iff : isSecondOfFour a b ↔
    isTail b ∧ (a.toNat = 0xF0 → 0x90 ≤ b.toNat) ∧ (a.toNat = 0xF4 → b.toNat ≤ 0x8F) := by
  simp only [isSecondOfFour, Bool.and_eq_true, Bool.or_eq_true, bne_iff_ne, decide_eq_true_eq,
    ne_eq, ← UInt8.toNat_inj, UInt8.le_iff_toNat_le, ← imp_iff_not_or, and_assoc]
  rfl

theorem scan_one (h : a.toNat < 0x80) : scan a rest = (some (ofByte a), rest) := by
  have h1 : a < 0x80 := h
  simp only [scan, h1, if_true]

theorem scan_two (first : 0xC2 ≤ a.toNat ∧ a.toNat ≤ 0xDF) (second : isTail b) :
    scan a (b :: rest) = (some (join (a.toNat % 32) [b]), rest) := by
  have h1 : ¬ a < 0x80 := fun lt => absurd (UInt8.lt_iff_toNat_lt.1 lt) (by simp; omega)
  have h2 : (decide (0xC2 ≤ a) && decide (a ≤ 0xDF)) = true := by
    simpa [UInt8.le_iff_toNat_le] using first
  simp only [scan, h1, h2, second, if_true, if_false]

theorem scan_three (first : 0xE0 ≤ a.toNat ∧ a.toNat ≤ 0xEF) (second : isSecondOfThree a b)
    (third : isTail c) :
    scan a (b :: c :: rest) = (some (join (a.toNat % 16) [b, c]), rest) := by
  have h1 : ¬ a < 0x80 := fun lt => absurd (UInt8.lt_iff_toNat_lt.1 lt) (by simp; omega)
  have h2 : (decide (0xC2 ≤ a) && decide (a ≤ 0xDF)) = false := by
    simp [UInt8.le_iff_toNat_le]; omega
  have h3 : (decide (0xE0 ≤ a) && decide (a ≤ 0xEF)) = true := by
    simpa [UInt8.le_iff_toNat_le] using first
  simp only [scan, h1, h2, h3, second, third, if_true, if_false, Bool.false_eq_true]

theorem scan_four (first : 0xF0 ≤ a.toNat ∧ a.toNat ≤ 0xF4) (second : isSecondOfFour a b)
    (third : isTail c) (fourth : isTail d) :
    scan a (b :: c :: d :: rest) = (some (join (a.toNat % 8) [b, c, d]), rest) := by
  have h1 : ¬ a < 0x80 := fun lt => absurd (UInt8.lt_iff_toNat_lt.1 lt) (by simp; omega)
  have h2 : (decide (0xC2 ≤ a) && decide (a ≤ 0xDF)) = false := by
    simp [UInt8.le_iff_toNat_le]; omega
  have h3 : (decide (0xE0 ≤ a) && decide (a ≤ 0xEF)) = false := by
    simp [UInt8.le_iff_toNat_le]; omega
  have h4 : (decide (0xF0 ≤ a) && decide (a ≤ 0xF4)) = true := by
    simpa [UInt8.le_iff_toNat_le] using first
  simp only [scan, h1, h2, h3, h4, second, third, fourth, if_true, if_false, Bool.false_eq_true]

/-! ## Bytes of a character -/

theorem ofNat_eq_of {n : Nat} (h : n = a.toNat) : UInt8.ofNat n = a := by
  rw [h, UInt8.ofNat_toNat]

theorem encodeChar_two {v : Nat} (low : 0x80 ≤ v) (high : v < 0x800) :
    String.utf8EncodeChar (Char.ofNat v) =
      [UInt8.ofNat (v / 64 % 32 + 192), UInt8.ofNat (v % 64 + 128)] := by
  have value : (Char.ofNat v).val.toNat = v := by
    rw [Char.ofNat, dif_pos (Or.inl (by omega))]; rfl
  unfold String.utf8EncodeChar
  dsimp only
  rw [value, if_neg (by omega), if_pos (by omega)]

theorem encodeChar_three {v : Nat} (low : 0x800 ≤ v) (high : v < 0x10000)
    (valid : v.isValidChar) :
    String.utf8EncodeChar (Char.ofNat v) =
      [UInt8.ofNat (v / 4096 % 16 + 224), UInt8.ofNat (v / 64 % 64 + 128),
        UInt8.ofNat (v % 64 + 128)] := by
  have value : (Char.ofNat v).val.toNat = v := by rw [Char.ofNat, dif_pos valid]; rfl
  unfold String.utf8EncodeChar
  dsimp only
  rw [value, if_neg (by omega), if_neg (by omega), if_pos (by omega)]

theorem encodeChar_four {v : Nat} (low : 0x10000 ≤ v) (valid : v.isValidChar) :
    String.utf8EncodeChar (Char.ofNat v) =
      [UInt8.ofNat (v / 262144 % 8 + 240), UInt8.ofNat (v / 4096 % 64 + 128),
        UInt8.ofNat (v / 64 % 64 + 128), UInt8.ofNat (v % 64 + 128)] := by
  have value : (Char.ofNat v).val.toNat = v := by rw [Char.ofNat, dif_pos valid]; rfl
  unfold String.utf8EncodeChar
  dsimp only
  rw [value, if_neg (by omega), if_neg (by omega), if_neg (by omega)]

theorem encodeChar_join_two (first : 0xC2 ≤ a.toNat ∧ a.toNat ≤ 0xDF) (second : isTail b) :
    String.utf8EncodeChar (join (a.toNat % 32) [b]) = [a, b] := by
  have second := isTail_iff.1 second
  rw [join, List.foldl_cons, List.foldl_nil, encodeChar_two (by omega) (by omega),
    ofNat_eq_of (a := a) (by omega), ofNat_eq_of (a := b) (by omega)]

theorem encodeChar_join_three (first : 0xE0 ≤ a.toNat ∧ a.toNat ≤ 0xEF)
    (second : isSecondOfThree a b) (third : isTail c) :
    String.utf8EncodeChar (join (a.toNat % 16) [b, c]) = [a, b, c] := by
  obtain ⟨tail, low, high⟩ := isSecondOfThree_iff.1 second
  have second := isTail_iff.1 tail
  have third := isTail_iff.1 third
  rw [join, List.foldl_cons, List.foldl_cons, List.foldl_nil,
    encodeChar_three (by omega) (by omega) (by unfold Nat.isValidChar; omega),
    ofNat_eq_of (a := a) (by omega), ofNat_eq_of (a := b) (by omega),
    ofNat_eq_of (a := c) (by omega)]

theorem encodeChar_join_four (first : 0xF0 ≤ a.toNat ∧ a.toNat ≤ 0xF4)
    (second : isSecondOfFour a b) (third : isTail c) (fourth : isTail d) :
    String.utf8EncodeChar (join (a.toNat % 8) [b, c, d]) = [a, b, c, d] := by
  obtain ⟨tail, low, high⟩ := isSecondOfFour_iff.1 second
  have second := isTail_iff.1 tail
  have third := isTail_iff.1 third
  have fourth := isTail_iff.1 fourth
  rw [join, List.foldl_cons, List.foldl_cons, List.foldl_cons, List.foldl_nil,
    encodeChar_four (by omega) (by unfold Nat.isValidChar; omega),
    ofNat_eq_of (a := a) (by omega), ofNat_eq_of (a := b) (by omega),
    ofNat_eq_of (a := c) (by omega), ofNat_eq_of (a := d) (by omega)]

/-! ## A character and its bytes -/

/-- The bytes of a character are scanned as the character, whatever follows them. -/
theorem scan_encodeChar (x : Char) (rest : List UInt8) :
    ∃ a tail, String.utf8EncodeChar x = a :: tail ∧ scan a (tail ++ rest) = (some x, rest) := by
  have valid : x.toNat.isValidChar := x.valid
  have bounds := valid
  unfold Nat.isValidChar at bounds
  have whole : Char.ofNat x.toNat = x := Char.ofNat_toNat x
  have byte {n : Nat} (lt : n < 256) : (UInt8.ofNat n).toNat = n := UInt8.toNat_ofNat_of_lt' lt
  by_cases one : x.toNat < 0x80
  · refine ⟨_, _, encodeChar_ascii one, ?_⟩
    have first : (toByte x).toNat = x.toNat := toNat_toByte one
    rw [List.nil_append, scan_one (first ▸ one), ofByte, first, whole]
  generalize x.toNat = v at valid bounds whole one
  subst whole
  by_cases two : v < 0x800
  · have first : (UInt8.ofNat (v / 64 % 32 + 192)).toNat = v / 64 % 32 + 192 := byte (by omega)
    have second : (UInt8.ofNat (v % 64 + 128)).toNat = v % 64 + 128 := byte (by omega)
    refine ⟨_, _, encodeChar_two (by omega) two, ?_⟩
    rw [List.singleton_append, scan_two (by omega) (isTail_iff.2 (by omega)), join]
    simp only [List.foldl_cons, List.foldl_nil, first, second]
    congr 3
    omega
  by_cases three : v < 0x10000
  · have first : (UInt8.ofNat (v / 4096 % 16 + 224)).toNat = v / 4096 % 16 + 224 := byte (by omega)
    have second : (UInt8.ofNat (v / 64 % 64 + 128)).toNat = v / 64 % 64 + 128 := byte (by omega)
    have third : (UInt8.ofNat (v % 64 + 128)).toNat = v % 64 + 128 := byte (by omega)
    refine ⟨_, _, encodeChar_three (by omega) three valid, ?_⟩
    rw [List.cons_append, List.singleton_append, scan_three (by omega)
      (isSecondOfThree_iff.2 ⟨isTail_iff.2 (by omega), by omega, by omega⟩)
      (isTail_iff.2 (by omega)), join]
    simp only [List.foldl_cons, List.foldl_nil, first, second, third]
    congr 3
    omega
  · have first : (UInt8.ofNat (v / 262144 % 8 + 240)).toNat = v / 262144 % 8 + 240 :=
      byte (by omega)
    have second : (UInt8.ofNat (v / 4096 % 64 + 128)).toNat = v / 4096 % 64 + 128 := byte (by omega)
    have third : (UInt8.ofNat (v / 64 % 64 + 128)).toNat = v / 64 % 64 + 128 := byte (by omega)
    have fourth : (UInt8.ofNat (v % 64 + 128)).toNat = v % 64 + 128 := byte (by omega)
    refine ⟨_, _, encodeChar_four (by omega) valid, ?_⟩
    rw [List.cons_append, List.cons_append, List.singleton_append, scan_four (by omega)
      (isSecondOfFour_iff.2 ⟨isTail_iff.2 (by omega), by omega, by omega⟩)
      (isTail_iff.2 (by omega)) (isTail_iff.2 (by omega)), join]
    simp only [List.foldl_cons, List.foldl_nil, first, second, third, fourth]
    congr 3
    omega

/-- What is scanned as a character is the bytes of the character. -/
theorem encodeChar_of_scan {x : Char} {r : List UInt8} (h : scan a rest = (some x, r)) :
    a :: rest = String.utf8EncodeChar x ++ r := by
  have within {low high : UInt8} (h : (decide (low ≤ a) && decide (a ≤ high)) = true) :
      low.toNat ≤ a.toNat ∧ a.toNat ≤ high.toNat := by
    simpa [UInt8.le_iff_toNat_le] using h
  revert h
  unfold scan
  split
  · rename_i one
    rintro ⟨⟩
    have lt : a.toNat < 128 := one
    rw [encodeChar_ascii (isAscii_ofByte lt), toByte_ofByte]
    rfl
  split
  · rename_i first
    repeat' split
    all_goals rintro ⟨⟩
    rename_i second
    rw [encodeChar_join_two (within first) second]
    rfl
  split
  · rename_i first
    repeat' split
    all_goals rintro ⟨⟩
    rename_i second _ _ third
    rw [encodeChar_join_three (within first) second third]
    rfl
  split
  · rename_i first
    repeat' split
    all_goals rintro ⟨⟩
    rename_i second _ _ third _ _ fourth
    rw [encodeChar_join_four (within first) second third fourth]
    rfl
  · rintro ⟨⟩

/-- The bytes of a character that is not ASCII are no bytes of ASCII characters. -/
theorem le_of_mem_encodeChar {x : Char} (wide : ¬ IsAscii x) {b : UInt8}
    (mem : b ∈ String.utf8EncodeChar x) : 0x80 ≤ b.toNat := by
  have valid : x.toNat.isValidChar := x.valid
  have bounds := valid
  unfold Nat.isValidChar at bounds
  unfold IsAscii at wide
  have whole : Char.ofNat x.toNat = x := Char.ofNat_toNat x
  have byte {n : Nat} (low : 0x80 ≤ n) (high : n < 256) : 0x80 ≤ (UInt8.ofNat n).toNat := by
    rwa [UInt8.toNat_ofNat_of_lt' high]
  generalize x.toNat = v at valid bounds whole wide
  subst whole
  by_cases two : v < 0x800
  · rw [encodeChar_two (by omega) two] at mem
    simp only [List.mem_cons, List.not_mem_nil, or_false] at mem
    rcases mem with rfl | rfl <;> exact byte (by omega) (by omega)
  by_cases three : v < 0x10000
  · rw [encodeChar_three (by omega) three valid] at mem
    simp only [List.mem_cons, List.not_mem_nil, or_false] at mem
    rcases mem with rfl | rfl | rfl <;> exact byte (by omega) (by omega)
  · rw [encodeChar_four (by omega) valid] at mem
    simp only [List.mem_cons, List.not_mem_nil, or_false] at mem
    rcases mem with rfl | rfl | rfl | rfl <;> exact byte (by omega) (by omega)

/-- An ASCII character shares its byte with no other character. -/
theorem toByte_not_mem_encodeChar {c x : Char} (ascii : IsAscii c) (ne : x ≠ c) :
    toByte c ∉ String.utf8EncodeChar x := by
  intro mem
  by_cases narrow : IsAscii x
  · rw [encodeChar_ascii narrow, List.mem_singleton] at mem
    exact ne (by rw [← ofByte_toByte narrow, ← mem, ofByte_toByte ascii])
  · have high := le_of_mem_encodeChar narrow mem
    rw [toNat_toByte ascii] at high
    exact Nat.not_lt.2 high ascii

/-! ## Texts -/

/-- The first character of a text is scanned from its bytes. -/
theorem exists_first {text : List Char} (h : encode text = a :: rest) :
    ∃ x more tail, text = x :: more ∧ String.utf8EncodeChar x = a :: tail ∧
      scan a rest = (some x, encode more) := by
  cases text with
  | nil => cases h
  | cons x more =>
    obtain ⟨b, tail, bytes, scanned⟩ := scan_encodeChar x (encode more)
    have split : encode (x :: more) = b :: (tail ++ encode more) := by
      rw [encode, List.flatMap_cons, bytes]
      rfl
    obtain ⟨rfl, rfl⟩ := List.cons.inj (split.symm.trans h)
    exact ⟨x, more, tail, rfl, bytes, scanned⟩

theorem parts_encode (text : List Char) : parts (encode text) = text.map some := by
  induction text with
  | nil => rw [encode, List.flatMap_nil, parts, List.map_nil]
  | cons x text ih =>
    obtain ⟨a, tail, bytes, scanned⟩ := scan_encodeChar x (encode text)
    have split : encode (x :: text) = a :: (tail ++ encode text) := by
      rw [encode, List.flatMap_cons, bytes]
      rfl
    rw [split, parts, scanned, ih, List.map_cons]

/-- **What encodes a text is decoded to the text.** -/
theorem decode?_encode (text : List Char) : decode? (encode text) = some text := by
  rw [decode?, parts_encode]
  induction text with
  | nil => rfl
  | cons x text ih =>
    rw [List.map_cons, List.mapM_cons, ih]
    rfl

/-- Nothing is replaced in the bytes of a text. -/
theorem decodeLossy_encode (text : List Char) : decodeLossy (encode text) = text := by
  rw [decodeLossy, parts_encode, List.map_map]
  exact List.map_id text

/-- What is decoded is the encoded text. -/
theorem encode_of_decode? {bytes : List UInt8} {text : List Char}
    (h : decode? bytes = some text) : bytes = encode text := by
  unfold decode? at h
  fun_induction parts bytes generalizing text with
  | case1 => cases h; rfl
  | case2 a rest ih =>
    rw [List.mapM_cons] at h
    obtain ⟨x, first, h⟩ := Option.bind_eq_some_iff.1 h
    obtain ⟨more, rest', h⟩ := Option.bind_eq_some_iff.1 h
    cases h
    have whole : a :: rest = String.utf8EncodeChar x ++ (scan a rest).2 :=
      encodeChar_of_scan (Prod.ext first rfl)
    rw [whole, ih rest']
    rfl

/-- The byte of an ASCII character is one nowhere else in a text. -/
theorem exists_split_of_ascii {text : List Char} {front back : List UInt8} {a : UInt8}
    (low : a.toNat < 128) (h : encode text = front ++ a :: back) :
    ∃ s t, text = s ++ ofByte a :: t ∧ front = encode s ∧ back = encode t := by
  induction text generalizing front with
  | nil => simp [encode] at h
  | cons x text ih =>
    have behind {more : List UInt8} (rest : encode text = more ++ a :: back) :
        ∃ s t, x :: text = s ++ ofByte a :: t ∧ String.utf8EncodeChar x ++ more = encode s ∧
          back = encode t := by
      obtain ⟨s, t, split, first, second⟩ := ih rest
      refine ⟨x :: s, t, by rw [split]; rfl, ?_, second⟩
      rw [first]
      exact List.flatMap_cons.symm
    have split : encode (x :: text) = String.utf8EncodeChar x ++ encode text := List.flatMap_cons
    rw [split] at h
    by_cases narrow : IsAscii x
    · have one := encodeChar_ascii narrow
      rw [one] at h
      cases front with
      | nil =>
        obtain ⟨rfl, rfl⟩ := List.cons.inj h
        exact ⟨[], text, by rw [ofByte_toByte narrow]; rfl, rfl, rfl⟩
      | cons b front =>
        obtain ⟨rfl, rest⟩ := List.cons.inj h
        have bytes : toByte x :: front = String.utf8EncodeChar x ++ front := by
          rw [one]
          rfl
        rw [bytes]
        exact behind rest
    · have wide : a ∉ String.utf8EncodeChar x := fun mem =>
        Nat.not_lt.2 (le_of_mem_encodeChar narrow mem) low
      obtain ⟨more, rfl, rest⟩ | ⟨last, whole, rest⟩ := List.append_eq_append_iff.1 h
      · exact behind rest
      · cases last with
        | nil =>
          rw [List.append_nil] at whole
          rw [← whole, ← (String.utf8EncodeChar x).append_nil]
          exact behind (show encode text = [] ++ a :: back from rest.symm)
        | cons c last =>
          cases rest
          exact absurd (by simp [whole]) wide

/-- A text ends behind each byte of an ASCII character, and another one starts there. -/
theorem exists_encode_of_ascii {text : List Char} {front back : List UInt8} {a : UInt8}
    (low : a.toNat < 128) (h : encode text = front ++ a :: back) :
    (∃ s, front ++ [a] = encode s) ∧ ∃ t, back = encode t := by
  obtain ⟨s, t, -, rfl, rfl⟩ := exists_split_of_ascii low h
  refine ⟨⟨s ++ [ofByte a], ?_⟩, t, rfl⟩
  rw [encode_append, encode_cons_ascii (isAscii_ofByte low), toByte_ofByte]
  rfl

/-! ## Rows -/

/-- Bytes without a line feed are the beginning of the first row. -/
theorem exists_rows_append {front : List UInt8} (clean : lineFeed ∉ front) (rest : List UInt8) :
    ∃ first more, rows rest = first :: more ∧ rows (front ++ rest) = (front ++ first) :: more := by
  obtain ⟨first, more, split⟩ := List.exists_cons_of_ne_nil (rows_ne_nil rest)
  refine ⟨first, more, split, ?_⟩
  induction front with
  | nil => exact split
  | cons b front ih =>
    rw [List.mem_cons, not_or] at clean
    rw [List.cons_append, rows, if_neg (Ne.symm clean.1), ih clean.2]
    rfl

/-- Only the line feed has the byte of a line feed. -/
theorem lineFeed_not_mem_encodeChar {x : Char} (ne : x ≠ '\n') :
    lineFeed ∉ String.utf8EncodeChar x := toByte_not_mem_encodeChar (c := '\n') (by decide) ne

theorem lineFeed_not_mem_encode {text : List Char} (h : '\n' ∉ text) : lineFeed ∉ encode text := by
  intro mem
  obtain ⟨x, inside, feed⟩ := List.mem_flatMap.1 mem
  refine lineFeed_not_mem_encodeChar ?_ feed
  rintro rfl
  exact h inside

/-- The rows of an encoded text are encoded texts. -/
theorem exists_encode_of_mem_rows {text : List Char} {row : List UInt8}
    (mem : row ∈ rows (encode text)) : ∃ chars, row = encode chars := by
  induction text generalizing row with
  | nil => exact ⟨[], by simpa [encode, rows] using mem⟩
  | cons x text ih =>
    have split : encode (x :: text) = String.utf8EncodeChar x ++ encode text := List.flatMap_cons
    rw [split] at mem
    by_cases feed : x = '\n'
    · subst feed
      have bytes : String.utf8EncodeChar '\n' = [lineFeed] := by decide
      rw [bytes, List.singleton_append, rows, if_pos rfl, List.mem_cons] at mem
      rcases mem with rfl | mem
      · exact ⟨[], rfl⟩
      · exact ih mem
    · obtain ⟨first, more, rest, whole⟩ :=
        exists_rows_append (lineFeed_not_mem_encodeChar feed) (encode text)
      rw [whole, List.mem_cons] at mem
      rw [rest] at ih
      rcases mem with rfl | mem
      · obtain ⟨chars, rfl⟩ := ih List.mem_cons_self
        exact ⟨x :: chars, List.flatMap_cons.symm⟩
      · exact ih (List.mem_cons_of_mem _ mem)

/-- So are the lines that a reader of lines gets. -/
theorem exists_encode_of_mem_inputLines {text : List Char} {line : List UInt8}
    (mem : line ∈ inputLines (encode text)) : ∃ chars, line = encode chars := by
  unfold inputLines at mem
  dsimp only at mem
  split at mem
  · exact exists_encode_of_mem_rows (List.dropLast_subset _ mem)
  · exact exists_encode_of_mem_rows mem

end StackLang.Text.Utf8
