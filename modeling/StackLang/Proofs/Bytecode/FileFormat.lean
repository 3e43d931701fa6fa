import StackLang.Bytecode.File
import StackLang.Proofs.Results
import StackLang.Proofs.WordBytes

/-!
# The file format

A program is in its file what the parts of the file say, and each part is read back from the
start of the bytes that follow it. Reading inverts every part exactly: what a reader accepts is
the encoding of what it gives. So files that can be read and programs that start inside their
code are the same thing, `file_format_bijective`.
-/

namespace StackLang.Bytecode

/-! ## Operations and tags -/

theorem Op.code_of_ofCode? {n : Nat} {op : Op} (h : ofCode? n = some op) : op.code = n := by
  have each : ∀ k : Fin all.length, all[k].code = k := by decide
  obtain ⟨lt, rfl⟩ := List.getElem?_eq_some_iff.1 h
  exact each ⟨n, lt⟩

end StackLang.Bytecode

namespace StackLang

theorem Tag.code_of_ofCode? {n : Nat} {t : Tag} (h : ofCode? n = some t) : t.code = n := by
  have each : ∀ k : Fin all.length, all[k].code = k := by decide
  obtain ⟨lt, rfl⟩ := List.getElem?_eq_some_iff.1 h
  exact each ⟨n, lt⟩

end StackLang

namespace StackLang.Bytecode

/-! ## Records -/

namespace Instruction

@[simp] theorem length_toBytes (i : Instruction) : i.toBytes.length = recordSize := by
  simp [toBytes, recordSize]

theorem ofBytes_toBytes (index : Nat) (i : Instruction) : ofBytes index i.toBytes = .ok i := by
  have op : Op.ofCode? (UInt8.ofNat i.op.code).toNat = some i.op := by
    have := i.op.code_lt
    rw [UInt8.toNat_ofNat_of_lt' (by simp only [UInt8.size]; omega), Op.ofCode?_code]
  have tag : Tag.ofCode? (UInt8.ofNat i.tag.code).toNat = some i.tag := by
    have := i.tag.code_lt
    rw [UInt8.toNat_ofNat_of_lt' (by simp only [UInt8.size]; omega), Tag.ofCode?_code]
  have value : (i.toBytes.drop 1).take 8 = i.value.toBytes := by
    simp [toBytes]
  have behind : i.toBytes.drop 9 = UInt8.ofNat i.tag.code :: (Word.mk i.register).toBytes := by
    simp [toBytes]
  have register : (i.toBytes.drop 10).take 8 = (Word.mk i.register).toBytes := by
    rw [show 10 = 9 + 1 from rfl, ← List.drop_drop, behind]
    simp [List.take_of_length_le]
  unfold ofBytes
  rw [if_neg (by simp), value, behind, register]
  simp only [toBytes, List.cons_append, List.headD_cons, op, tag, Word.ofBytes_toBytes]

/-- A record that can be read is the record of its instruction. -/
theorem toBytes_of_ofBytes {index : Nat} {r : List UInt8} {i : Instruction}
    (size : r.length ≤ recordSize) (h : ofBytes index r = .ok i) : i.toBytes = r := by
  unfold ofBytes at h
  split at h
  · cases h
  rename_i full
  have size : r.length = 18 := Nat.le_antisymm size (Nat.not_lt.1 full)
  simp only at h
  split at h
  · cases h
  · cases h
  rename_i op tag hop htag
  cases h
  obtain ⟨a, behind, rfl⟩ : ∃ a behind, r = a :: behind :=
    List.exists_cons_of_length_eq_add_one size
  obtain ⟨b, rest, split⟩ : ∃ b rest, behind.drop 8 = b :: rest :=
    List.exists_cons_of_length_eq_add_one (n := 8) (by simp at size ⊢; omega)
  have tagByte : (a :: behind).drop 9 = b :: rest := split
  have registerBytes : (a :: behind).drop 10 = rest := by
    rw [show 10 = 9 + 1 from rfl, ← List.drop_drop, tagByte]
    rfl
  have length : rest.length = 8 := by
    have := congrArg List.length split
    simp at this size
    omega
  have opCode := Op.code_of_ofCode? hop
  have tagCode := Tag.code_of_ofCode? htag
  rw [tagByte] at tagCode
  simp only [List.headD_cons] at opCode tagCode
  simp only [toBytes, registerBytes, opCode, tagCode, UInt8.ofNat_toNat]
  rw [List.take_of_length_le (Nat.le_of_eq length), Word.toBytes_ofBytes length,
    Word.toBytes_ofBytes (by simp at size ⊢; omega)]
  simp only [List.drop_succ_cons, List.drop_zero, List.cons_append]
  rw [← split, List.take_append_drop]

end Instruction

namespace Program

/-! ## Counted parts -/

/-- The counts of a program fit into the eight bytes that a file has for each. -/
structure Fits (p : Program) : Prop where
  strings : p.strings.length < 2 ^ 64
  string : ∀ s ∈ p.strings, s.length < 2 ^ 64
  entrypoint : p.entrypoint < 2 ^ 64

@[simp] theorem length_sizeBytes (n : Nat) : (sizeBytes n).length = 8 := by
  simp [sizeBytes]

theorem size?_eq_some_iff {bytes rest : List UInt8} {n : Nat} :
    size? bytes = some (n, rest) ↔ n < 2 ^ 64 ∧ bytes = sizeBytes n ++ rest := by
  unfold size?
  constructor
  · intro h
    split at h
    · cases h
    cases h
    refine ⟨Word.toNat_lt _, ?_⟩
    rw [sizeBytes, Word.ofNat_toNat, Word.toBytes_ofBytes (by simp; omega), List.take_append_drop]
  · rintro ⟨lt, rfl⟩
    have take : (sizeBytes n ++ rest).take 8 = sizeBytes n := by simp
    have drop : (sizeBytes n ++ rest).drop 8 = rest := by simp
    rw [if_neg (by simp), take, drop, sizeBytes, Word.ofBytes_toBytes, Word.toNat_ofNat,
      Nat.mod_eq_of_lt lt]

/-- The strings of a table are read back one behind the other, and nothing else is read as
them. -/
theorem readStrings_eq_ok_iff {count index : Nat} {bytes after : List UInt8}
    {strings : List (List UInt8)} :
    readStrings count index bytes = .ok (strings, after) ↔
      strings.length = count ∧ (∀ s ∈ strings, s.length < 2 ^ 64) ∧
        bytes = strings.flatMap stringBytes ++ after := by
  induction count generalizing index bytes strings with
  | zero =>
    simp only [readStrings, Except.ok.injEq, Prod.mk.injEq, List.length_eq_zero_iff]
    constructor
    · rintro ⟨rfl, rfl⟩
      simp
    · rintro ⟨rfl, _, h⟩
      exact ⟨rfl, by simpa using h⟩
  | succ count ih =>
    unfold readStrings
    constructor
    · intro h
      split at h
      · cases h
      rename_i n rest size
      obtain ⟨lt, rfl⟩ := size?_eq_some_iff.1 size
      split at h
      · cases h
      rename_i enough
      obtain ⟨⟨more, behind⟩, inner, h⟩ := bind_eq_ok_iff.1 h
      cases h
      obtain ⟨length, each, split⟩ := ih.1 inner
      have taken : (rest.take n).length = n := List.length_take_of_le (Nat.not_lt.1 enough)
      refine ⟨by simp [length], ?_, ?_⟩
      · intro s hs
        cases hs with
        | head => omega
        | tail _ hs => exact each s hs
      · rw [List.flatMap_cons, stringBytes, taken, List.append_assoc, List.append_assoc, ← split,
          List.take_append_drop]
    · rintro ⟨length, each, rfl⟩
      obtain ⟨s, more, rfl⟩ : ∃ s more, strings = s :: more :=
        List.exists_cons_of_length_eq_add_one length
      have size : size? ((s :: more).flatMap stringBytes ++ after) =
          some (s.length, s ++ (more.flatMap stringBytes ++ after)) :=
        size?_eq_some_iff.2 ⟨each s (by simp), by simp [stringBytes]⟩
      have inner : readStrings count (index + 1) (more.flatMap stringBytes ++ after) =
          .ok (more, after) :=
        ih.2 ⟨by simpa using length, fun t ht => each t (List.mem_cons_of_mem _ ht), rfl⟩
      rw [size]
      simp [inner]

/-! ## Rows of records -/

theorem length_le_of_mem_records {bytes r : List UInt8} (h : r ∈ records bytes) :
    r.length ≤ recordSize := by
  fun_induction records bytes with
  | case1 => cases h
  | case2 bytes _ ih =>
    cases h with
    | head => exact List.length_take_le _ _
    | tail _ h => exact ih h

theorem flatten_records (bytes : List UInt8) : (records bytes).flatten = bytes := by
  fun_induction records bytes with
  | case1 => rfl
  | case2 bytes _ ih => rw [List.flatten_cons, ih, List.take_append_drop]

theorem records_flatMap (code : List Instruction) :
    records (code.flatMap Instruction.toBytes) = code.map Instruction.toBytes := by
  induction code with
  | nil => simp [records]
  | cons i rest ih =>
    have length := i.length_toBytes
    have nonempty : (i :: rest).flatMap Instruction.toBytes ≠ [] := by
      simp [Instruction.toBytes]
    rw [records, dif_neg nonempty]
    rw [List.flatMap_cons, List.take_left' length, List.drop_left' length, ih, List.map_cons]

theorem readRecords_map (index : Nat) (code : List Instruction) :
    readRecords index (code.map Instruction.toBytes) = .ok code := by
  induction code generalizing index with
  | nil => rfl
  | cons i rest ih =>
    simp [readRecords, Instruction.ofBytes_toBytes, ih]

theorem flatMap_of_readRecords {index : Nat} {rs : List (List UInt8)} {code : List Instruction}
    (size : ∀ r ∈ rs, r.length ≤ recordSize) (h : readRecords index rs = .ok code) :
    code.flatMap Instruction.toBytes = rs.flatten := by
  induction rs generalizing index code with
  | nil =>
    cases h
    rfl
  | cons r rest ih =>
    unfold readRecords at h
    obtain ⟨i, first, h⟩ := bind_eq_ok_iff.1 h
    obtain ⟨more, inner, h⟩ := bind_eq_ok_iff.1 h
    cases h
    rw [List.flatMap_cons, List.flatten_cons,
      ih (fun r hr => size r (List.mem_cons_of_mem _ hr)) inner,
      Instruction.toBytes_of_ofBytes (size r (by simp)) first]

/-- The records of a row of bytes are instructions exactly if the bytes are their records. -/
theorem readRecords_records_eq_ok_iff {bytes : List UInt8} {code : List Instruction} :
    readRecords 0 (records bytes) = .ok code ↔ bytes = code.flatMap Instruction.toBytes := by
  constructor
  · intro h
    rw [flatMap_of_readRecords (fun _ => length_le_of_mem_records) h, flatten_records]
  · rintro rfl
    rw [records_flatMap, readRecords_map]

/-! ## Whole files -/

/-- The part of a file that says where a program starts and what it does. -/
theorem ofBytes_toBytes {p : Program} (fits : p.Fits) :
    ofBytes p.toBytes =
      if p.code.size < p.entrypoint then .error (.entrypointPastEnd p.entrypoint p.code.size)
      else .ok p := by
  have count : size? p.toBytes = some (p.strings.length, p.strings.flatMap stringBytes ++
      (sizeBytes p.entrypoint ++ p.code.toList.flatMap Instruction.toBytes)) :=
    size?_eq_some_iff.2 ⟨fits.strings, by simp [toBytes, headerBytes]⟩
  have strings (after : List UInt8) :
      readStrings p.strings.length 0 (p.strings.flatMap stringBytes ++ after) =
        .ok (p.strings, after) :=
    readStrings_eq_ok_iff.2 ⟨rfl, fits.string, rfl⟩
  have entrypoint := size?_eq_some_iff.2 ⟨fits.entrypoint,
    Eq.refl (sizeBytes p.entrypoint ++ p.code.toList.flatMap Instruction.toBytes)⟩
  have code := readRecords_records_eq_ok_iff.2
    (Eq.refl (p.code.toList.flatMap Instruction.toBytes))
  simp [ofBytes, count, strings, entrypoint, code]

/-- A file that can be read is the file of the program that it is read as. -/
theorem toBytes_of_ofBytes {bytes : List UInt8} {p : Program} (h : ofBytes bytes = .ok p) :
    p.Fits ∧ p.entrypoint ≤ p.code.size ∧ p.toBytes = bytes := by
  unfold ofBytes at h
  split at h
  rotate_left
  · cases h
  rename_i n rest count
  obtain ⟨countLt, rfl⟩ := size?_eq_some_iff.1 count
  obtain ⟨⟨strings, behind⟩, table, inner⟩ := bind_eq_ok_iff.1 h
  clear h
  obtain ⟨rfl, stringLt, rfl⟩ := readStrings_eq_ok_iff.1 table
  simp only at inner
  split at inner
  rotate_left
  · cases inner
  rename_i entrypoint tail entry
  obtain ⟨entryLt, rfl⟩ := size?_eq_some_iff.1 entry
  obtain ⟨code, records, h⟩ := bind_eq_ok_iff.1 inner
  rw [readRecords_records_eq_ok_iff] at records
  split at h
  · cases h
  rename_i inside
  cases h
  refine ⟨⟨countLt, stringLt, entryLt⟩, by simpa using inside, ?_⟩
  simp [toBytes, headerBytes, records]

/-- **Files and programs.** A program that starts inside its code is read back from its file, a
file that can be read is the file of such a program, and the file of a program that starts behind
its code can not be read. -/
theorem file_format_bijective :
    (∀ p : Program, p.Fits → p.entrypoint ≤ p.code.size → ofBytes p.toBytes = .ok p) ∧
    (∀ (bytes : List UInt8) (p : Program), ofBytes bytes = .ok p →
      p.Fits ∧ p.entrypoint ≤ p.code.size ∧ p.toBytes = bytes) ∧
    (∀ p : Program, p.Fits → p.code.size < p.entrypoint →
      ofBytes p.toBytes = .error (.entrypointPastEnd p.entrypoint p.code.size)) := by
  refine ⟨?_, fun _ _ => toBytes_of_ofBytes, ?_⟩
  · intro p fits inside
    rw [ofBytes_toBytes fits, if_neg (Nat.not_lt.2 inside)]
  · intro p fits past
    rw [ofBytes_toBytes fits, if_pos past]

/-- A program of four instructions that starts at the given one. -/
def greeting (entrypoint : Nat) : Program where
  strings := [[0x68, 0x69, 0x0A], []]
  entrypoint
  code := #[{ op := .nop }, { op := .pushStr },
    { op := .mov, value := .ofNat (2 ^ 64 - 2), tag := .u64, register := 3 }, { op := .halt }]

theorem fits_greeting {entrypoint : Nat} (h : entrypoint < 2 ^ 64) : (greeting entrypoint).Fits :=
  ⟨by simp [greeting], by simp [greeting], h⟩

theorem file_format_bijective_greeting :
    ((greeting 4).Fits ∧ (greeting 4).entrypoint ≤ (greeting 4).code.size ∧
      ofBytes (greeting 4).toBytes = .ok (greeting 4)) ∧
    (∃ bytes, ofBytes bytes = .ok (greeting 4) ∧ (greeting 4).toBytes = bytes) ∧
    ((greeting 5).Fits ∧ (greeting 5).code.size < (greeting 5).entrypoint ∧
      ofBytes (greeting 5).toBytes = .error (.entrypointPastEnd 5 4)) := by
  have four : (greeting 4).Fits := fits_greeting (by decide)
  have five : (greeting 5).Fits := fits_greeting (by decide)
  have read := file_format_bijective.1 (greeting 4) four (by decide)
  have written := file_format_bijective.2.1 _ _ read
  have refused := file_format_bijective.2.2 (greeting 5) five (by decide)
  exact ⟨⟨four, by decide, read⟩, ⟨_, read, written.2.2⟩, five, by decide, refused⟩

end Program

end StackLang.Bytecode
