import StackLang.Proofs.Text.Utf8
import StackLang.Text.View

/-!
# Cutting at a delimiter

A cut at the first delimiter of a text leaves what stands in front of it and what stands behind it.
`split` repeats that on the text behind, until it has one piece less than it may make or finds no
delimiter; what is left is the last piece. So it drops the delimiters that it cuts at and nothing
else: `pieces_of_split` says how many pieces there are, that they make up the text, and where a
delimiter can be left.

A delimiter is looked for among characters. If it is an ASCII character, a search for its byte among
the bytes of the text finds the same place, `firstOf?_toByte`.
-/

namespace StackLang.Text.View

variable {c : Char} {text before after : List Char}

/-! ## One cut -/

theorem cut?_of_not_mem (clean : c ∉ text) : cut? c text = none := by
  induction text with
  | nil => rfl
  | cons d rest ih =>
    rw [List.mem_cons, not_or] at clean
    rw [cut?, if_neg (Ne.symm clean.1), ih clean.2, Option.map_none]

theorem cut?_append (clean : c ∉ before) (after : List Char) :
    cut? c (before ++ c :: after) = some (before, after) := by
  induction before with
  | nil => exact if_pos rfl
  | cons d before ih =>
    rw [List.mem_cons, not_or] at clean
    rw [List.cons_append, cut?, if_neg (Ne.symm clean.1), ih clean.2, Option.map_some]

/-- A text has no delimiter, or it is one cut away from a shorter text. -/
theorem clean_or_cut (c : Char) (v : View) :
    c ∉ v.chars ∨ ∃ before after, c ∉ before ∧ v = ⟨before ++ c :: after⟩ := by
  by_cases mem : c ∈ v.chars
  · obtain ⟨before, after, shape, clean⟩ := List.eq_append_cons_of_mem mem
    exact .inr ⟨before, after, clean, congrArg View.mk shape⟩
  · exact .inl mem

theorem chop_append (clean : c ∉ before) (after : List Char) :
    chop c ⟨before ++ c :: after⟩ = ⟨after⟩ := by
  rw [chop, cut?_append clean]

theorem toByte_not_mem_encode (ascii : IsAscii c) (clean : c ∉ text) :
    toByte c ∉ Utf8.encode text := by
  intro mem
  obtain ⟨d, inside, byte⟩ := List.mem_flatMap.1 mem
  apply Utf8.toByte_not_mem_encodeChar ascii _ byte
  rintro rfl
  exact clean inside

/-- The byte of an ASCII delimiter is found where the text is cut. -/
theorem firstOf?_toByte (ascii : IsAscii c) (v : View) :
    v.firstOf? (toByte c) = (cut? c v.chars).map fun p => (Utf8.encode p.1).length := by
  have search (bytes : List UInt8) (clean : toByte c ∉ bytes) :
      bytes.findIdx? (· == toByte c) = none := by
    rw [List.findIdx?_eq_none_iff]
    intro b mem
    simpa using fun same : b = toByte c => clean (same ▸ mem)
  obtain clean | ⟨before, after, clean, rfl⟩ := clean_or_cut c v
  · rw [cut?_of_not_mem clean]
    exact search _ (toByte_not_mem_encode ascii clean)
  · rw [cut?_append clean, firstOf?, bytes, Utf8.encode_append, Utf8.encode_cons_ascii ascii,
      List.findIdx?_append, search _ (toByte_not_mem_encode ascii clean)]
    simp [List.findIdx?_cons]

/-! ## Pieces -/

/-- The text of the pieces with a delimiter between each two of them. -/
def join (c : Char) (pieces : List View) : View := ⟨[c].intercalate (pieces.map chars)⟩

theorem join_singleton (c : Char) (v : View) : join c [v] = v := by
  simp [join]

theorem join_cons {pieces : List View} (more : pieces ≠ []) (c : Char) (p : View) :
    join c (p :: pieces) = ⟨p.chars ++ c :: (join c pieces).chars⟩ := by
  have more : pieces.map chars ≠ [] := by simpa using more
  simp [join, List.intercalate_cons_of_ne_nil more]

theorem split_ne_nil (c : Char) (max : Nat) (v : View) : split c (max + 1) v ≠ [] := by
  cases max with
  | zero => simp [split]
  | succ max =>
    rw [split]
    split <;> simp

theorem split_of_not_mem {v : View} (clean : c ∉ v.chars) (max : Nat) :
    split c (max + 1) v = [v] := by
  cases max with
  | zero => rfl
  | succ max => rw [split, cut?_of_not_mem clean]

theorem split_cons (clean : c ∉ before) (max : Nat) (after : List Char) :
    split c (max + 2) ⟨before ++ c :: after⟩ = ⟨before⟩ :: split c (max + 1) ⟨after⟩ := by
  rw [split, cut?_append clean]

theorem join_split (c : Char) (max : Nat) (v : View) : join c (split c (max + 1) v) = v := by
  induction max generalizing v with
  | zero => exact join_singleton c v
  | succ max ih =>
    obtain clean | ⟨before, after, clean, rfl⟩ := clean_or_cut c v
    · rw [split_of_not_mem clean, join_singleton]
    · rw [split_cons clean, join_cons (split_ne_nil c max _), ih]

theorem length_split (c : Char) (max : Nat) (v : View) :
    (split c (max + 1) v).length = min (max + 1) (1 + v.chars.count c) := by
  induction max generalizing v with
  | zero =>
    rw [split, List.length_singleton]
    omega
  | succ max ih =>
    obtain clean | ⟨before, after, clean, rfl⟩ := clean_or_cut c v
    · rw [split_of_not_mem clean, List.length_singleton, List.count_eq_zero.2 clean]
      omega
    · rw [split_cons clean, List.length_cons, ih]
      simp only [List.count_append, List.count_cons_self, List.count_eq_zero.2 clean]
      omega

/-- Where a delimiter may be left: in the last piece, if no more pieces may be made. -/
theorem split_eq_append (c : Char) (max : Nat) (v : View) :
    ∃ front last, split c (max + 1) v = front ++ [last] ∧ (∀ p ∈ front, c ∉ p.chars) ∧
      (c ∈ last.chars → front.length = max) := by
  induction max generalizing v with
  | zero => exact ⟨[], v, rfl, nofun, fun _ => rfl⟩
  | succ max ih =>
    obtain clean | ⟨before, after, clean, rfl⟩ := clean_or_cut c v
    · exact ⟨[], v, split_of_not_mem clean _, nofun, fun mem => absurd mem clean⟩
    · obtain ⟨front, last, shape, cleans, full⟩ := ih ⟨after⟩
      refine ⟨⟨before⟩ :: front, last, ?_, ?_, ?_⟩
      · rw [split_cons clean, shape, List.cons_append]
      · exact List.forall_mem_cons.2 ⟨clean, cleans⟩
      · intro mem
        rw [List.length_cons, full mem]

/-- **Nothing is lost in pieces.** A text is cut into as many pieces as there may be, or into one
more than it has delimiters. Joined with the delimiter they are the text. A delimiter is left in
none but the last piece, and there only if no more pieces may be made. What `chop` leaves of a text
with a delimiter is all but the first of two or more pieces. -/
theorem pieces_of_split (c : Char) {max : Nat} (positive : 1 ≤ max) (v : View) :
    (split c max v).length = min max (1 + v.chars.count c) ∧
      join c (split c max v) = v ∧
      (∀ p ∈ (split c max v).dropLast, c ∉ p.chars) ∧
      (∀ last ∈ (split c max v).getLast?, c ∈ last.chars → (split c max v).length = max) ∧
      (2 ≤ max → c ∈ v.chars → chop c v = join c (split c max v).tail) := by
  obtain ⟨max, rfl⟩ : ∃ m, max = m + 1 := ⟨max - 1, by omega⟩
  obtain ⟨front, last, shape, clean, full⟩ := split_eq_append c max v
  refine ⟨length_split c max v, join_split c max v, ?_, ?_, ?_⟩
  · rwa [shape, List.dropLast_concat]
  · rw [shape, List.getLast?_concat]
    rintro _ ⟨⟩ mem
    rw [List.length_append, full mem, List.length_singleton]
  · intro two mem
    obtain ⟨rest, rfl⟩ : ∃ m, max = m + 1 := ⟨max - 1, by omega⟩
    obtain none | ⟨before, after, none, rfl⟩ := clean_or_cut c v
    · exact absurd mem none
    · rw [chop_append none, split_cons none, List.tail_cons, join_split]

/-- Delimiters side by side and at the end. -/
theorem pieces_of_split_adjacent :
    let v := ofString "é,,b,"
    1 ≤ 3 ∧ (split ',' 3 v).length = min 3 (1 + v.chars.count ',') ∧
      join ',' (split ',' 3 v) = v ∧
      (∀ p ∈ (split ',' 3 v).dropLast, ',' ∉ p.chars) ∧
      (∀ last ∈ (split ',' 3 v).getLast?, ',' ∈ last.chars → (split ',' 3 v).length = 3) ∧
      ',' ∈ v.chars ∧ chop ',' v = join ',' (split ',' 3 v).tail := by
  intro v
  have positive : 1 ≤ 3 := by decide
  have mem : ',' ∈ v.chars := by decide
  obtain ⟨length, joined, clean, full, chopped⟩ := pieces_of_split ',' positive v
  exact ⟨positive, length, joined, clean, full, mem, chopped (by decide) mem⟩

end StackLang.Text.View
