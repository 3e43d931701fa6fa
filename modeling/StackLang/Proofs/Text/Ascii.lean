import StackLang.Text.Escape
import StackLang.Text.Rows

/-!
# Texts of ASCII characters

An ASCII character is one byte, and the byte gives the character back. So a text of such
characters can be taken apart at its bytes.
-/

namespace StackLang.Text

/-- The characters whose number is below 128. -/
def IsAscii (c : Char) : Prop := c.toNat < 128

instance : DecidablePred IsAscii := fun c => inferInstanceAs (Decidable (c.toNat < 128))

/-- What holds of each of the 128 characters holds of every ASCII character. -/
theorem IsAscii.of_forall {p : Char → Prop} (h : ∀ n : Fin 128, p (Char.ofNat n)) {c : Char}
    (ascii : IsAscii c) : p c := by
  rw [← Char.ofNat_toNat c]
  exact h ⟨c.toNat, ascii⟩

/-- The byte of an ASCII character. -/
def toByte (c : Char) : UInt8 := UInt8.ofNat c.toNat

theorem toNat_toByte {c : Char} (h : IsAscii c) : (toByte c).toNat = c.toNat := by
  unfold IsAscii at h
  exact UInt8.toNat_ofNat_of_lt' (by simp only [UInt8.size]; omega)

theorem ofByte_toByte {c : Char} (h : IsAscii c) : ofByte (toByte c) = c := by
  rw [ofByte, toNat_toByte h, Char.ofNat_toNat]

theorem toNat_ofByte (b : UInt8) : (ofByte b).toNat = b.toNat := by
  have valid : b.toNat.isValidChar := Or.inl (by have := b.toNat_lt; omega)
  rw [ofByte, Char.ofNat, dif_pos valid]
  rfl

theorem isAscii_ofByte {b : UInt8} (h : b.toNat < 128) : IsAscii (ofByte b) := by
  unfold IsAscii
  rwa [toNat_ofByte]

theorem toByte_ofByte (b : UInt8) : toByte (ofByte b) = b := by
  rw [toByte, toNat_ofByte, UInt8.ofNat_toNat]

theorem asciiText_map_toByte {text : List Char} (h : ∀ c ∈ text, IsAscii c) :
    asciiText (text.map toByte) = text := by
  rw [asciiText, List.map_map]
  exact (List.map_congr_left fun c mem => ofByte_toByte (h c mem)).trans text.map_id

theorem isAscii_of_alphanum {c : Char} (h : c.isAlphanum ∨ c = '_') : IsAscii c := by
  have below {l : Char} (bound : IsAscii l) (h : c ≤ l) : IsAscii c :=
    Nat.lt_of_le_of_lt h bound
  rcases h with alphanum | rfl
  · rcases Bool.or_eq_true_iff.1 alphanum with alpha | digit
    · rcases Bool.or_eq_true_iff.1 alpha with upper | lower
      · exact below (l := 'Z') (by decide) (of_decide_eq_true upper).2
      · exact below (l := 'z') (by decide) (of_decide_eq_true (Bool.and_eq_true_iff.1 lower).2)
    · exact below (l := '9') (by decide) (of_decide_eq_true (Bool.and_eq_true_iff.1 digit).2)
  · decide

/-- The byte of a character is the only one. -/
theorem ofByte_eq_iff {b : UInt8} {c : Char} (h : IsAscii c) : ofByte b = c ↔ b = toByte c := by
  constructor
  · rintro rfl
    exact (toByte_ofByte b).symm
  · rintro rfl
    exact ofByte_toByte h

/-- What holds of each of the 256 bytes holds of every byte. -/
theorem forall_byte {p : UInt8 → Prop} (h : ∀ n : Fin 256, p ⟨⟨n⟩⟩) (b : UInt8) : p b :=
  h b.toFin

namespace Utf8

theorem encodeChar_ascii {c : Char} (h : IsAscii c) : String.utf8EncodeChar c = [toByte c] := by
  unfold IsAscii at h
  have size : c.utf8Size = 1 := by
    rw [Char.utf8Size, if_pos]
    exact Nat.le_of_lt_succ h
  rw [String.utf8EncodeChar_eq_singleton size]
  rfl

/-- The bytes of an ASCII text. -/
theorem encode_ascii {text : List Char} (h : ∀ c ∈ text, IsAscii c) :
    encode text = text.map toByte := by
  induction text with
  | nil => rfl
  | cons c rest ih =>
    rw [encode, List.flatMap_cons, encodeChar_ascii (h c (by simp)), List.map_cons]
    rw [← ih fun c hc => h c (List.mem_cons_of_mem _ hc)]
    rfl

theorem encode_cons_ascii {c : Char} (h : IsAscii c) (text : List Char) :
    encode (c :: text) = toByte c :: encode text := by
  rw [encode, List.flatMap_cons, encodeChar_ascii h]
  rfl

/-- Bytes of ASCII characters, each taken as a character. -/
theorem encode_ofByte {bytes : List UInt8} (h : ∀ b ∈ bytes, b.toNat < 128) :
    encode (bytes.map ofByte) = bytes := by
  rw [encode_ascii fun c mem => ?_, List.map_map]
  · exact (List.map_congr_left fun b _ => toByte_ofByte b).trans bytes.map_id
  · obtain ⟨b, inside, rfl⟩ := List.mem_map.1 mem
    exact isAscii_ofByte (h b inside)

theorem encode_append (s t : List Char) : encode (s ++ t) = encode s ++ encode t :=
  List.flatMap_append

end Utf8

theorem Utf8.length_encode (text : String) : (encode text.toList).length = text.utf8ByteSize := by
  rw [← String.size_toByteArray, ← String.utf8Encode_toList, List.utf8Encode,
    List.size_toByteArray]
  rfl

/-! ## Rows -/

theorem rows_of_not_mem {row : List UInt8} (h : lineFeed ∉ row) : rows row = [row] := by
  induction row with
  | nil => rfl
  | cons b row ih =>
    rw [List.mem_cons, not_or] at h
    rw [rows, if_neg (Ne.symm h.1), ih h.2]

theorem rows_append {row : List UInt8} (h : lineFeed ∉ row) (rest : List UInt8) :
    rows (row ++ lineFeed :: rest) = row :: rows rest := by
  induction row with
  | nil => rw [List.nil_append, rows, if_pos rfl]
  | cons b row ih =>
    rw [List.mem_cons, not_or] at h
    rw [List.cons_append, rows, if_neg (Ne.symm h.1), ih h.2]

/-- The first row ends at the first line feed or is all of the text. -/
theorem exists_first_row (bytes : List UInt8) :
    ∃ row, lineFeed ∉ row ∧
      (bytes = row ∧ rows bytes = [row] ∨
        ∃ rest, bytes = row ++ lineFeed :: rest ∧ rows bytes = row :: rows rest) := by
  by_cases mem : lineFeed ∈ bytes
  · obtain ⟨row, rest, rfl, clean⟩ := List.eq_append_cons_of_mem mem
    exact ⟨row, clean, .inr ⟨rest, rfl, rows_append clean rest⟩⟩
  · exact ⟨bytes, mem, .inl ⟨rfl, rows_of_not_mem mem⟩⟩

/-- Between `front` and `back` stands a row: line feeds or the ends of the text enclose it. -/
structure IsRow (front row back : List UInt8) : Prop where
  clean : lineFeed ∉ row
  above : front = [] ∨ front.getLast? = some lineFeed
  below : back = [] ∨ back.head? = some lineFeed

/-- Each of the rows stands in the text, behind as many line feeds as rows. -/
theorem exists_isRow_of_rows {bytes row : List UInt8} {above below : List (List UInt8)}
    (h : rows bytes = above ++ row :: below) :
    ∃ front back, bytes = front ++ row ++ back ∧ IsRow front row back ∧
      front.count lineFeed = above.length ∧ back.isEmpty = below.isEmpty := by
  induction above generalizing bytes with
  | nil =>
    obtain ⟨first, clean, ⟨rfl, only⟩ | ⟨rest, rfl, more⟩⟩ := exists_first_row bytes
    · cases only.symm.trans h
      exact ⟨[], [], by simp, ⟨clean, .inl rfl, .inl rfl⟩, rfl, rfl⟩
    · cases more.symm.trans h
      refine ⟨[], lineFeed :: rest, by simp, ⟨clean, .inl rfl, .inr rfl⟩, rfl, ?_⟩
      rw [List.isEmpty_cons, List.isEmpty_eq_false_iff.2 (rows_ne_nil rest)]
  | cons top above ih =>
    obtain ⟨first, clean, ⟨rfl, only⟩ | ⟨rest, rfl, more⟩⟩ := exists_first_row bytes
    · have tooFew := (List.cons.inj (only.symm.trans h)).2
      simp at tooFew
    · obtain ⟨rfl, split⟩ := List.cons.inj (more.symm.trans h)
      obtain ⟨front, back, rfl, inner, count, last⟩ := ih split
      refine ⟨first ++ lineFeed :: front, back, by simp, ⟨inner.clean, .inr ?_, inner.below⟩, ?_,
        last⟩
      · obtain rfl | ends := inner.above
        · simp
        · simp [List.getLast?_cons, ends]
      · rw [List.count_append, List.count_cons_self, List.count_eq_zero.2 clean, count,
          List.length_cons, Nat.zero_add]

theorem length_rows_le (bytes : List UInt8) : (rows bytes).length ≤ bytes.length + 1 := by
  induction bytes with
  | nil => exact Nat.le_refl 1
  | cons b rest ih =>
    rw [rows]
    split
    · simpa using ih
    · split
      · rename_i eq
        simp only [eq, List.length_cons] at ih ⊢
        omega
      · simp

/-- Each row but the last has a line feed of its own. -/
theorem length_flatten_rows (bytes : List UInt8) :
    (rows bytes).flatten.length + (rows bytes).length = bytes.length + 1 := by
  induction bytes with
  | nil => rfl
  | cons b rest ih =>
    rw [rows]
    split
    · rw [List.flatten_cons, List.nil_append, List.length_cons, List.length_cons]
      omega
    split
    · rename_i row more eq
      simp only [eq, List.flatten_cons, List.length_append, List.length_cons] at ih ⊢
      omega
    · rename_i none
      exact absurd none (rows_ne_nil rest)

/-- The bytes of an ASCII text that is one row. -/
theorem lineFeed_not_mem_encode {text : List Char} (h : ∀ c ∈ text, IsAscii c ∧ c ≠ '\n') :
    lineFeed ∉ Utf8.encode text := by
  rw [Utf8.encode_ascii fun c mem => (h c mem).1, List.mem_map]
  rintro ⟨c, mem, same⟩
  obtain ⟨ascii, ne⟩ := h c mem
  refine ne ?_
  rw [← ofByte_toByte ascii, same]
  decide

/-- Each row is free of line feeds. -/
theorem lineFeed_not_mem_of_mem_rows {bytes row : List UInt8} (mem : row ∈ rows bytes) :
    lineFeed ∉ row := by
  obtain ⟨above, below, split⟩ := List.append_of_mem mem
  obtain ⟨front, back, -, isRow, -, -⟩ := exists_isRow_of_rows split
  exact isRow.clean

/-- Rows with a line feed between each two of them. -/
theorem rows_intercalate {all : List (List UInt8)} (nonempty : all ≠ [])
    (clean : ∀ row ∈ all, lineFeed ∉ row) : rows ([lineFeed].intercalate all) = all := by
  induction all with
  | nil => exact absurd rfl nonempty
  | cons row all ih =>
    rw [List.forall_mem_cons] at clean
    by_cases last : all = []
    · subst last
      rw [List.intercalate_singleton, rows_of_not_mem clean.1]
    · rw [List.intercalate_cons_of_ne_nil last, List.append_assoc, List.singleton_append,
        rows_append clean.1, ih last clean.2]

theorem Utf8.encode_intercalate (between : List Char) (texts : List (List Char)) :
    encode (between.intercalate texts) = (encode between).intercalate (texts.map encode) := by
  induction texts with
  | nil => rfl
  | cons text texts ih =>
    by_cases last : texts = []
    · subst last
      simp
    · rw [List.intercalate_cons_of_ne_nil last, encode_append, encode_append, ih, List.map_cons,
        List.intercalate_cons_of_ne_nil (by simpa using last)]

/-- The rows of ASCII texts with a line feed between each two of them. -/
theorem rows_encode_intercalate {texts : List (List Char)} (nonempty : texts ≠ [])
    (h : ∀ text ∈ texts, ∀ c ∈ text, IsAscii c ∧ c ≠ '\n') :
    rows (Utf8.encode (['\n'].intercalate texts)) = texts.map Utf8.encode := by
  have feed : Utf8.encode ['\n'] = [lineFeed] := by decide
  rw [Utf8.encode_intercalate, feed, rows_intercalate (by simpa using nonempty)]
  rw [List.forall_mem_map]
  exact fun text mem => lineFeed_not_mem_encode (h text mem)

theorem flatMap_eq_intercalate {α : Type} (x : α) (rows : List (List α)) :
    (rows.flatMap fun row => row ++ [x]) = [x].intercalate (rows ++ [[]]) := by
  induction rows with
  | nil => rfl
  | cons row rows ih =>
    rw [List.flatMap_cons, ih, List.cons_append, List.intercalate_cons_of_ne_nil (by simp)]

end StackLang.Text
