import StackLang.Proofs.Bytecode.FileFormat

/-!
# Damaged files

The instructions of a file are records of eighteen bytes, and `recordFlaw?` says what is wrong with
the bytes of one of them. Behind a sound header the verdict on a file is that of its first record
with a flaw; without one it hangs on the entry point alone. A header itself shows where it ends, so
that no part of it passes for a whole one: a file that was cut off is read only if the cut is
between two records and not in front of the entry point. All of this is `verdict_of_header`.
-/

namespace StackLang.Bytecode

/-! ## Single records -/

/-- What is wrong with the bytes of record number `index`: there are too few of them, or there is no
operation or no tag of the code that they give. -/
def recordFlaw? (index : Nat) (record : List UInt8) : Option FileError :=
  let opByte := (record.getD 0 0).toNat
  let tagByte := (record.getD 9 0).toNat
  if record.length < 18 then some (.truncatedInstruction index)
  else if 51 ≤ opByte then some (.unknownOpcode index opByte)
  else if 11 ≤ tagByte then some (.unknownTag index tagByte)
  else none

theorem Op.ofCode?_eq_none_iff {n : Nat} : ofCode? n = none ↔ 51 ≤ n :=
  List.getElem?_eq_none_iff

end StackLang.Bytecode

namespace StackLang

theorem Tag.ofCode?_eq_none_iff {n : Nat} : ofCode? n = none ↔ 11 ≤ n :=
  List.getElem?_eq_none_iff

end StackLang

namespace StackLang.Bytecode

namespace Instruction

variable {index : Nat} {record : List UInt8}

/-- A record is refused for its flaw and for nothing else. -/
theorem ofBytes_eq_error_iff {error : FileError} :
    ofBytes index record = .error error ↔ recordFlaw? index record = some error := by
  have opByte : record.headD 0 = record.getD 0 0 := by cases record <;> rfl
  have tagByte : (record.drop 9).headD 0 = record.getD 9 0 := by
    rw [List.getD_eq_getElem?_getD, List.headD_eq_head?_getD, List.head?_drop]
  unfold ofBytes recordFlaw?
  rw [recordSize, opByte, tagByte]
  dsimp only
  by_cases short : record.length < 18
  · simp [short]
  by_cases op : 51 ≤ (record.getD 0 0).toNat
  · simp only [short, op, Op.ofCode?_eq_none_iff.2 op, if_true, if_false]
    simp
  obtain ⟨_, known⟩ := Option.ne_none_iff_exists'.1 (mt Op.ofCode?_eq_none_iff.1 op)
  by_cases tag : 11 ≤ (record.getD 9 0).toNat
  · simp only [short, op, known, tag, Tag.ofCode?_eq_none_iff.2 tag, if_true, if_false]
    simp
  obtain ⟨_, found⟩ := Option.ne_none_iff_exists'.1 (mt Tag.ofCode?_eq_none_iff.1 tag)
  simp only [short, op, known, tag, found, if_false]
  simp

/-- A record without a flaw is an instruction. -/
theorem exists_ofBytes (h : recordFlaw? index record = none) :
    ∃ i, ofBytes index record = .ok i := by
  cases read : ofBytes index record with
  | ok i => exact ⟨i, rfl⟩
  | error error =>
    rw [ofBytes_eq_error_iff, h] at read
    cases read

end Instruction

namespace Program

/-! ## Rows of records -/

/-- The bytes of record number `index`; at the end of a file there may be fewer than eighteen. -/
def recordAt (bytes : List UInt8) (index : Nat) : List UInt8 := (bytes.drop (18 * index)).take 18

theorem recordAt_drop (bytes : List UInt8) (index : Nat) :
    recordAt (bytes.drop 18) index = recordAt bytes (index + 1) := by
  have place : 18 + 18 * index = 18 * (index + 1) := by omega
  rw [recordAt, List.drop_drop, place, recordAt]

theorem readRecords_records {bytes : List UInt8} (nonempty : bytes ≠ []) (index : Nat) :
    readRecords index (records bytes) = do
      let i ← Instruction.ofBytes index (recordAt bytes 0)
      return i :: (← readRecords (index + 1) (records (bytes.drop 18))) := by
  rw [records, dif_neg nonempty]
  rfl

/-- A row of records is refused for the first of them that has a flaw. -/
theorem readRecords_of_flaw {bytes : List UInt8} {first k : Nat} {error : FileError}
    (inside : 18 * k < bytes.length)
    (before : ∀ j < k, recordFlaw? (first + j) (recordAt bytes j) = none)
    (flaw : recordFlaw? (first + k) (recordAt bytes k) = some error) :
    readRecords first (records bytes) = .error error := by
  induction k generalizing bytes first with
  | zero =>
    have nonempty : bytes ≠ [] := List.ne_nil_of_length_pos inside
    have refused : Instruction.ofBytes first (recordAt bytes 0) = .error error :=
      Instruction.ofBytes_eq_error_iff.2 flaw
    rw [readRecords_records nonempty, refused, error_bind]
  | succ k ih =>
    have nonempty : bytes ≠ [] := List.ne_nil_of_length_pos (Nat.zero_lt_of_lt inside)
    obtain ⟨i, read⟩ : ∃ i, Instruction.ofBytes first (recordAt bytes 0) = .ok i :=
      Instruction.exists_ofBytes (before 0 (Nat.succ_pos k))
    have rest : readRecords (first + 1) (records (bytes.drop 18)) = .error error := by
      apply ih
      · rw [List.length_drop]
        omega
      · intro j lt
        rw [recordAt_drop, Nat.add_right_comm]
        exact before (j + 1) (Nat.succ_lt_succ lt)
      · rw [recordAt_drop, Nat.add_right_comm]
        exact flaw
    rw [readRecords_records nonempty, read, ok_bind, rest, error_bind]

/-- A row of records without a flaw is a row of instructions. -/
theorem exists_readRecords {bytes : List UInt8} {first : Nat}
    (sound : ∀ j, 18 * j < bytes.length → recordFlaw? (first + j) (recordAt bytes j) = none) :
    ∃ code, readRecords first (records bytes) = .ok code := by
  fun_induction records bytes generalizing first with
  | case1 => exact ⟨[], rfl⟩
  | case2 bytes nonempty ih =>
    obtain ⟨i, read⟩ : ∃ i, Instruction.ofBytes first (bytes.take 18) = .ok i :=
      Instruction.exists_ofBytes (sound 0 (List.length_pos_iff.2 nonempty))
    obtain ⟨more, rest⟩ : ∃ more, readRecords (first + 1) (records (bytes.drop 18)) = .ok more := by
      apply ih
      intro j inside
      rw [recordSize, List.length_drop] at inside
      rw [recordSize, recordAt_drop, Nat.add_right_comm]
      exact sound (j + 1) (by omega)
    refine ⟨i :: more, ?_⟩
    rw [readRecords, recordSize, read, ok_bind, rest, ok_bind]
    rfl

theorem length_flatMap_toBytes (code : List Instruction) :
    (code.flatMap Instruction.toBytes).length = 18 * code.length := by
  induction code with
  | nil => rfl
  | cons i code ih =>
    rw [List.flatMap_cons, List.length_append, Instruction.length_toBytes, ih, List.length_cons,
      recordSize]
    omega

/-- The records of a row of instructions, cut off behind one of them. -/
theorem take_flatMap_toBytes (code : List Instruction) (n : Nat) :
    (code.flatMap Instruction.toBytes).take (18 * n) =
      (code.take n).flatMap Instruction.toBytes := by
  induction code generalizing n with
  | nil => simp
  | cons i code ih =>
    cases n with
    | zero => rfl
    | succ n =>
      have length : i.toBytes.length = 18 := i.length_toBytes
      have cut : 18 * (n + 1) = i.toBytes.length + 18 * n := by omega
      rw [List.flatMap_cons, cut, List.take_length_add_append, ih, List.take_succ_cons,
        List.flatMap_cons]

/-- The records tell the instructions. -/
theorem flatMap_toBytes_inj {code more : List Instruction}
    (h : code.flatMap Instruction.toBytes = more.flatMap Instruction.toBytes) : code = more := by
  have read := readRecords_records_eq_ok_iff.2 h.symm
  rw [readRecords_records_eq_ok_iff.2 rfl] at read
  exact (Except.ok.inj read).symm

/-! ## Headers -/

section

variable {strings : List (List UInt8)} {entrypoint : Nat}

theorem size?_header_append (fits : Fits { strings, entrypoint }) (bytes : List UInt8) :
    size? (headerBytes strings entrypoint ++ bytes) =
      some (strings.length, strings.flatMap stringBytes ++ (sizeBytes entrypoint ++ bytes)) :=
  size?_eq_some_iff.2 ⟨fits.strings, by simp [headerBytes]⟩

theorem readStrings_table (lengths : ∀ s ∈ strings, s.length < 2 ^ 64) (after : List UInt8) :
    readStrings strings.length 0 (strings.flatMap stringBytes ++ after) = .ok (strings, after) :=
  readStrings_eq_ok_iff.2 ⟨rfl, lengths, rfl⟩

/-- Behind a header the records decide. -/
theorem ofBytes_header_append (fits : Fits { strings, entrypoint }) (bytes : List UInt8) :
    ofBytes (headerBytes strings entrypoint ++ bytes) = do
      let code ← readRecords 0 (records bytes)
      if code.length < entrypoint then .error (.entrypointPastEnd entrypoint code.length)
      else return { strings, entrypoint, code := code.toArray } := by
  have entry : size? (sizeBytes entrypoint ++ bytes) = some (entrypoint, bytes) :=
    size?_eq_some_iff.2 ⟨fits.entrypoint, rfl⟩
  simp only [ofBytes, size?_header_append fits, readStrings_table fits.string, entry, ok_bind]

theorem ofBytes_header_append_eq_ok_iff (fits : Fits { strings, entrypoint }) {bytes : List UInt8}
    {p : Program} : ofBytes (headerBytes strings entrypoint ++ bytes) = .ok p ↔
      ∃ code : List Instruction, bytes = code.flatMap Instruction.toBytes ∧
        entrypoint ≤ code.length ∧ p = { strings, entrypoint, code := code.toArray } := by
  rw [ofBytes_header_append fits, bind_eq_ok_iff]
  refine exists_congr fun code => ?_
  rw [readRecords_records_eq_ok_iff]
  refine and_congr_right fun _ => ?_
  split
  · rename_i past
    simp [Nat.not_le.2 past]
  · rename_i inside
    simp [Nat.not_lt.1 inside, eq_comm]

/-- A header shows where it ends. -/
theorem headerBytes_append_inj {others : List (List UInt8)} {start : Nat} {bytes more : List UInt8}
    (fits : Fits { strings, entrypoint }) (fits' : Fits { strings := others, entrypoint := start })
    (same : headerBytes strings entrypoint ++ bytes = headerBytes others start ++ more) :
    bytes = more := by
  have counts := size?_header_append fits bytes
  rw [same, size?_header_append fits'] at counts
  obtain ⟨count, tables⟩ := Prod.mk.inj (Option.some.inj counts)
  have table := readStrings_table fits.string (sizeBytes entrypoint ++ bytes)
  rw [← count, ← tables, readStrings_table fits'.string] at table
  obtain ⟨-, entries⟩ := Prod.mk.inj (Except.ok.inj table)
  exact (List.append_inj entries (by rw [length_sizeBytes, length_sizeBytes])).2.symm

/-! ## Whole files -/

theorem ofBytes_of_flaw (fits : Fits { strings, entrypoint }) {bytes : List UInt8} {k : Nat}
    {error : FileError} (inside : 18 * k < bytes.length)
    (before : ∀ j < k, recordFlaw? j (recordAt bytes j) = none)
    (flaw : recordFlaw? k (recordAt bytes k) = some error) :
    ofBytes (headerBytes strings entrypoint ++ bytes) = .error error := by
  have refused : readRecords 0 (records bytes) = .error error := by
    apply readRecords_of_flaw inside
    · intro j lt
      rw [Nat.zero_add]
      exact before j lt
    · rw [Nat.zero_add]
      exact flaw
  rw [ofBytes_header_append fits, refused, error_bind]

theorem ofBytes_of_sound (fits : Fits { strings, entrypoint }) {bytes : List UInt8}
    (sound : ∀ k, 18 * k < bytes.length → recordFlaw? k (recordAt bytes k) = none) :
    ∃ code : List Instruction, code.flatMap Instruction.toBytes = bytes ∧
      code.length = bytes.length / 18 ∧
      ofBytes (headerBytes strings entrypoint ++ bytes) =
        if entrypoint ≤ code.length then .ok { strings, entrypoint, code := code.toArray }
        else .error (.entrypointPastEnd entrypoint code.length) := by
  obtain ⟨code, read⟩ : ∃ code, readRecords 0 (records bytes) = .ok code := by
    apply exists_readRecords
    intro k inside
    rw [Nat.zero_add]
    exact sound k inside
  have written := readRecords_records_eq_ok_iff.1 read
  refine ⟨code, written.symm, ?_, ?_⟩
  · rw [written, length_flatMap_toBytes, Nat.mul_div_cancel_left _ (by decide)]
  rw [ofBytes_header_append fits, read, ok_bind]
  by_cases inside : entrypoint ≤ code.length
  · rw [if_neg (Nat.not_lt.2 inside), if_pos inside]
    rfl
  · rw [if_pos (Nat.not_le.1 inside), if_neg inside]

/-- A header that is cut off is no file: its program would have a header in front of more bytes
than the whole one has. -/
theorem ofBytes_take_header (fits : Fits { strings, entrypoint }) {k : Nat}
    (short : k < (headerBytes strings entrypoint).length) :
    ∃ error, ofBytes ((headerBytes strings entrypoint).take k) = .error error := by
  cases read : ofBytes ((headerBytes strings entrypoint).take k) with
  | error error => exact ⟨error, rfl⟩
  | ok p =>
    obtain ⟨fits', -, written⟩ := toBytes_of_ofBytes read
    have same : headerBytes strings entrypoint ++ [] = headerBytes p.strings p.entrypoint ++
        (p.code.toList.flatMap Instruction.toBytes ++ (headerBytes strings entrypoint).drop k) := by
      rw [← List.append_assoc, ← toBytes, written, List.take_append_drop, List.append_nil]
    have nothing := headerBytes_append_inj fits
      ⟨fits'.strings, fits'.string, fits'.entrypoint⟩ same
    have rest : (headerBytes strings entrypoint).drop k = [] :=
      (List.append_eq_nil_iff.1 nothing.symm).2
    exact absurd (List.drop_eq_nil_iff.1 rest) (Nat.not_le.2 short)

theorem toBytes_toArray (code : List Instruction) :
    toBytes { strings, entrypoint, code := code.toArray } =
      headerBytes strings entrypoint ++ code.flatMap Instruction.toBytes := rfl

/-- A file that was cut off is read as its first instructions, or not at all. -/
theorem ofBytes_take_toBytes_eq_ok_iff {code : List Instruction}
    (fits : Fits { strings, entrypoint }) {k : Nat} {q : Program}
    (inside : k ≤ (toBytes { strings, entrypoint, code := code.toArray }).length) :
    ofBytes ((toBytes { strings, entrypoint, code := code.toArray }).take k) = .ok q ↔
      ∃ n, entrypoint ≤ n ∧ n ≤ code.length ∧
        k = (headerBytes strings entrypoint).length + 18 * n ∧
        q = { strings, entrypoint, code := (code.take n).toArray } := by
  rw [toBytes_toArray, List.length_append, length_flatMap_toBytes] at inside
  rw [toBytes_toArray]
  by_cases short : k < (headerBytes strings entrypoint).length
  · obtain ⟨error, refused⟩ := ofBytes_take_header fits short
    rw [List.take_append_of_le_length (Nat.le_of_lt short), refused]
    constructor
    · intro h
      cases h
    · rintro ⟨n, -, -, rfl, -⟩
      omega
  obtain ⟨m, rfl⟩ := Nat.exists_eq_add_of_le (Nat.not_lt.1 short)
  rw [List.take_length_add_append, ofBytes_header_append_eq_ok_iff fits]
  constructor
  · rintro ⟨rest, cut, started, rfl⟩
    have length : m = 18 * rest.length := by
      have := congrArg List.length cut
      rw [length_flatMap_toBytes, List.length_take, length_flatMap_toBytes] at this
      omega
    have first : code.take rest.length = rest := by
      rw [length, take_flatMap_toBytes] at cut
      exact flatMap_toBytes_inj cut
    exact ⟨rest.length, started, by omega, by rw [length], by rw [first]⟩
  · rintro ⟨n, started, enough, cut, rfl⟩
    obtain rfl : m = 18 * n := Nat.add_left_cancel cut
    exact ⟨code.take n, take_flatMap_toBytes code n, by rwa [List.length_take_of_le enough], rfl⟩

end

/-- **The verdict on a file.** Behind a sound header the first record with a flaw decides. Without
one the file is read as the instructions of all its records, if it starts among or right behind
them. No part of a header is a file, and what was cut off from a file is read only as the first
instructions of it, down to its entry point. -/
theorem verdict_of_header (strings : List (List UInt8)) (entrypoint : Nat)
    (fits : Fits { strings, entrypoint }) :
    (∀ (bytes : List UInt8) (k : Nat) (error : FileError), 18 * k < bytes.length →
      (∀ j < k, recordFlaw? j (recordAt bytes j) = none) →
      recordFlaw? k (recordAt bytes k) = some error →
      ofBytes (headerBytes strings entrypoint ++ bytes) = .error error) ∧
    (∀ bytes : List UInt8,
      (∀ k, 18 * k < bytes.length → recordFlaw? k (recordAt bytes k) = none) →
      ∃ code : List Instruction, code.flatMap Instruction.toBytes = bytes ∧
        code.length = bytes.length / 18 ∧
        ofBytes (headerBytes strings entrypoint ++ bytes) =
          if entrypoint ≤ bytes.length / 18 then
            .ok { strings, entrypoint, code := code.toArray }
          else .error (.entrypointPastEnd entrypoint (bytes.length / 18))) ∧
    (∀ k < (headerBytes strings entrypoint).length,
      ∃ error, ofBytes ((headerBytes strings entrypoint).take k) = .error error) ∧
    (∀ (code : List Instruction) (k : Nat) (q : Program),
      k ≤ (toBytes { strings, entrypoint, code := code.toArray }).length →
      (ofBytes ((toBytes { strings, entrypoint, code := code.toArray }).take k) = .ok q ↔
        ∃ n, entrypoint ≤ n ∧ n ≤ code.length ∧
          k = (headerBytes strings entrypoint).length + 18 * n ∧
          q = { strings, entrypoint, code := (code.take n).toArray })) := by
  refine ⟨fun _ _ _ => ofBytes_of_flaw fits, ?_, fun _ => ofBytes_take_header fits,
    fun _ _ _ => ofBytes_take_toBytes_eq_ok_iff fits⟩
  intro bytes sound
  obtain ⟨code, written, count, verdict⟩ := ofBytes_of_sound fits sound
  rw [count] at verdict
  exact ⟨code, written, count, verdict⟩

theorem verdict_of_header_greeting :
    Fits { strings := (greeting 1).strings, entrypoint := 1 } ∧
    ofBytes (headerBytes (greeting 1).strings 1 ++
      (Instruction.toBytes { op := .nop } ++ 60 :: List.replicate 20 200)) =
        .error (.unknownOpcode 1 60) ∧
    ofBytes (headerBytes (greeting 1).strings 1 ++ []) = .error (.entrypointPastEnd 1 0) ∧
    (∃ error, ofBytes ((headerBytes (greeting 1).strings 1).take 20) = .error error) ∧
    ofBytes ((greeting 1).toBytes.take 71) =
      .ok { greeting 1 with code := #[{ op := .nop }, { op := .pushStr }] } := by
  have program : (greeting 1).Fits := fits_greeting (by decide)
  have fits : Fits { strings := (greeting 1).strings, entrypoint := 1 } :=
    ⟨program.strings, program.string, program.entrypoint⟩
  obtain ⟨flawed, sound, short, cut⟩ := verdict_of_header (greeting 1).strings 1 fits
  refine ⟨fits, flawed _ 1 _ (by decide) (by decide) (by decide), ?_, short 20 (by decide),
    (cut (greeting 1).code.toList 71 _ (by decide)).2 ⟨2, by decide, by decide, by decide, rfl⟩⟩
  obtain ⟨_, _, _, refused⟩ := sound [] fun k inside => absurd inside (Nat.not_lt_zero _)
  exact refused

end Program

end StackLang.Bytecode
