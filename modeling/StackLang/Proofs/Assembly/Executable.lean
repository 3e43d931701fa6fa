import Mathlib.Data.List.Nodup
import StackLang.Proofs.Assembly.Resolution
import StackLang.Proofs.Machine.Flaws

/-!
# Assembled programs are well formed

What the machine takes for granted of a program the assembler guarantees: the directive that names
the entry is no instruction, registers are those that there are, and a string instruction indexes
the string that is written on its line, in a table that holds no string twice. So of the faults
that depend on the program alone an assembled one has at most those of its jumps.
-/

namespace StackLang

open Bytecode

/-- Whether the machine reads the register of an instruction. -/
def Bytecode.Instruction.usesRegister (i : Instruction) : Bool :=
  i.op = .mov || i.op = .push && i.tag = .reg

/-- A program that the machine can execute. -/
structure Bytecode.Program.Executable (p : Program) : Prop where
  distinct : p.strings.Nodup
  string : ∀ i ∈ p.code, i.op = .pushStr → (p.string? i).isSome
  op : ∀ i ∈ p.code, i.op ≠ .entrypoint
  register : ∀ i ∈ p.code, i.usesRegister → i.register.toNat < 16
  entry : p.entrypoint ≤ p.code.size

/-- An executable program has no flaws but the targets of its jumps. -/
theorem Bytecode.Program.Executable.jump_of_flaw {p : Program} (h : p.Executable)
    {i : Instruction} (mem : i ∈ p.code) {e : Fault} (flaw : p.flaw? i = some e) :
    e = .jumpToZero ∨ ∃ op target, e = .jumpOutOfBounds op target := by
  have string := h.string i mem
  have executable := h.op i mem
  have register := h.register i mem
  unfold Program.flaw? at flaw
  split at flaw
  case h_1 | h_2 | h_3 | h_4 =>
    split at flaw
    · cases flaw
      exact .inl rfl
    · split at flaw
      · cases flaw
        exact .inr ⟨_, _, rfl⟩
      · cases flaw
  case h_5 op =>
    have found := string op
    unfold Program.string? at found
    rw [← Option.not_isNone, Bool.not_eq_true'] at found
    rw [found] at flaw
    cases flaw
  case h_6 op =>
    split at flaw
    · rename_i outside
      have inside := register (by simp [Instruction.usesRegister, op, outside.1])
      omega
    · cases flaw
  case h_7 op =>
    have inside := register (by simp [Instruction.usesRegister, op])
    rw [if_neg (by omega)] at flaw
    cases flaw
  case h_8 op => exact absurd op executable
  case h_9 => cases flaw

/-- No run of an executable program fails with a fault of the program but at a jump. -/
theorem Machine.jump_of_reaches {p : Program} (h : p.Executable) {loader : Loader}
    {m n : Machine} {e : Fault} (run : (start p loader).Reaches m) (failed : m.step = (some e, n))
    (static : e.isStatic) : e = .jumpToZero ∨ ∃ op target, e = .jumpOutOfBounds op target := by
  obtain ⟨i, found, flaw⟩ := flaw_of_reaches run failed static
  exact h.jump_of_flaw (Array.mem_of_getElem? found) flaw

namespace Assembly

open Text

/-! ## The string table -/

theorem Draft.nodup_intern {table : List (List UInt8)} (h : table.Nodup) (s : List UInt8) :
    (intern table s).2.Nodup := by
  unfold intern
  split
  · exact h
  · rename_i missing
    have new : s ∉ table := by
      intro mem
      have none := List.findIdx?_eq_none_iff.1 missing s mem
      simp at none
    rw [← List.concat_eq_append]
    exact List.Nodup.concat new h

/-- Instructions are placed without putting a string into the table twice. -/
theorem Threads.nodup {before after : List (List UInt8)} {code : List Instruction}
    (chain : Threads Instruction.Placed before code after) (h : before.Nodup) : after.Nodup := by
  induction chain with
  | nil => exact h
  | cons head _ ih =>
    refine ih ?_
    cases head with
    | pushStr bytes => exact Draft.nodup_intern h bytes
    | _ => exact h

/-- The strings of a text that fits in memory are indexed by integers of the machine. -/
theorem length_strings_lt {text : String} {p : Program} (h : assemble text = .ok p)
    (size : text.utf8ByteSize < 2 ^ 63) : p.strings.length < 2 ^ 63 := by
  obtain ⟨code, shape, -, chain⟩ := placed_of_assembleBytes h
  have strings := chain.length_le
  have count : p.code.size = code.length + 1 := by
    rw [← Array.length_toList, shape, List.length_cons]
  have small := indexBehind_lines_lt size
  rw [← size_of_assembleBytes h] at small
  simp only [List.length_nil] at strings
  omega

theorem string?_ofNat {p : Program} (small : p.strings.length < 2 ^ 63) {i : Instruction}
    {index : Nat} {bytes : List UInt8} (value : i.value = .ofNat index)
    (listed : p.strings[index]? = some bytes) : p.string? i = some bytes := by
  have inside := (List.getElem?_eq_some_iff.1 listed).1
  rw [Program.string?, value, Word.toInt_ofNat (by omega), if_pos (Int.natCast_nonneg index),
    Int.toNat_natCast, listed]

/-! ## Lines of instructions -/

section Becomes

variable {ls : List Line} {strings : List (List UInt8)} {l : Line} {i : Instruction}

theorem Line.Becomes.op_ne (h : l.Becomes ls strings i) (kept : l.isInstruction) :
    i.op ≠ .entrypoint := by
  obtain ⟨ts, operand, tokens, -, -⟩ := h
  unfold Line.isInstruction at kept
  rw [tokens] at kept
  exact bne_iff_ne.1 kept

/-- A register that a line names is one of the machine. -/
theorem Line.Becomes.register_lt (h : l.Becomes ls strings i) (uses : i.usesRegister) :
    i.register.toNat < 16 := by
  obtain ⟨ts, operand, -, written, encodes⟩ := h
  have encoded {r : Nat} (lt : r < registerCount) : (UInt64.ofNat r).toNat < 16 := by
    unfold registerCount at lt
    rw [UInt64.toNat_ofNat']
    omega
  obtain ⟨op, value, tag, register⟩ := i
  dsimp only at written encodes
  cases encodes with
  | register r =>
    cases written with
    | register lt => exact encoded lt
  | loadTop r =>
    cases written with
    | loadTop lt => exact encoded lt
  | load r v =>
    cases written with
    | load lt => exact encoded lt
  | _ =>
    -- No register is written, so the instruction holds the first one.
    exact (by decide : (0 : UInt64).toNat < 16)

/-- A string instruction has the literal that is written on its line. -/
theorem Line.Becomes.string (h : l.Becomes ls strings i) (op : i.op = .pushStr) :
    ∃ bytes index, l.tokens = [.instruction .pushStr, .text bytes] ∧ i.value = .ofNat index ∧
      strings[index]? = some bytes := by
  obtain ⟨ts, operand, tokens, written, encodes⟩ := h
  rw [op] at tokens written
  obtain ⟨_, value, tag, register⟩ := i
  cases written with
  | none h => cases h
  | text bytes =>
    cases encodes with
    | text listed => exact ⟨bytes, _, tokens, rfl, listed⟩
  | index n h => simp [Op.isJump] at h
  | label name h => cases h

end Becomes

/-! ## Programs -/

/-- The start of a program is one of its instructions or the place behind the last one. -/
theorem entrypoint_le_of_assembleBytes {bytes : List UInt8} {p : Program}
    (h : assembleBytes bytes = .ok p) : p.entrypoint ≤ p.code.size := by
  have resolves := resolves_of_assembleBytes h
  cases entry : entryLabel? (lines bytes) with
  | none =>
    rw [resolves.start entry]
    exact Nat.zero_le _
  | some name => exact (resolves.range name _ (resolves.entry name entry)).2

theorem executable_of_text {text : String} {p : Program} (h : assemble text = .ok p)
    (size : text.utf8ByteSize < 2 ^ 63) : p.Executable := by
  have small := length_strings_lt h size
  obtain ⟨code, -, -, chain⟩ := placed_of_assembleBytes h
  have placed (i : Instruction) (mem : i ∈ p.code) : i = { op := .nop } ∨
      ∃ l : Line, l.isInstruction ∧ l.Becomes (lines (Utf8.encode text.toList)) p.strings i := by
    obtain ⟨k, place⟩ := Array.mem_iff_getElem?.1 mem
    obtain ⟨-, rfl⟩ | ⟨_, l, _, -, -, kept, becomes⟩ := exists_line_of_getElem? h place
    · exact .inl rfl
    · exact .inr ⟨l, kept, becomes⟩
  constructor
  case distinct => exact chain.nodup List.nodup_nil
  case string =>
    intro i mem op
    obtain rfl | ⟨l, -, becomes⟩ := placed i mem
    · cases op
    · obtain ⟨bytes, index, -, value, listed⟩ := becomes.string op
      rw [string?_ofNat small value listed]
      rfl
  case op =>
    intro i mem
    obtain rfl | ⟨l, kept, becomes⟩ := placed i mem
    · decide
    · exact becomes.op_ne kept
  case register =>
    intro i mem uses
    obtain rfl | ⟨l, -, becomes⟩ := placed i mem
    · cases uses
    · exact becomes.register_lt uses
  case entry => exact entrypoint_le_of_assembleBytes h

/-- **Assembled programs are well formed.** A string instruction stands on a line with a literal
and indexes that literal. However long it runs and whatever foreign functions it calls, the program
never fails for a string, a register or an operation that there is not. A text in memory has fewer
than `2 ^ 63` bytes. -/
theorem executable_of_assemble {text : String} {p : Program} (h : assemble text = .ok p)
    (size : text.utf8ByteSize < 2 ^ 63) :
    p.Executable ∧
      (∀ k i, p.code[k]? = some i → i.op = .pushStr → ∃ above l below bytes,
        lines (Utf8.encode text.toList) = above ++ l :: below ∧ k = indexBehind above ∧
          l.tokens = [.instruction .pushStr, .text bytes] ∧ p.string? i = some bytes) ∧
      ∀ loader m n e, (Machine.start p loader).Reaches m → m.step = (some e, n) →
        (∀ index, e ≠ .unknownString index) ∧ (∀ index, e ≠ .invalidRegister index) ∧
          ∀ op, e ≠ .notExecutable op := by
  have executable := executable_of_text h size
  refine ⟨executable, ?_, ?_⟩
  · intro k i place op
    obtain ⟨-, rfl⟩ | ⟨above, l, below, split, index, -, becomes⟩ := exists_line_of_getElem? h place
    · cases op
    · obtain ⟨bytes, listed, tokens, value, found⟩ := becomes.string op
      have small := length_strings_lt h size
      exact ⟨above, l, below, bytes, split, index, tokens, string?_ofNat small value found⟩
  · intro loader m n e run failed
    have other := Machine.jump_of_reaches executable run failed
    refine ⟨?_, ?_, ?_⟩
    all_goals
      rintro _ rfl
      obtain same | ⟨_, _, same⟩ := other rfl
      · cases same
      · cases same

/-- A text with a string that is written twice, registers and an entry label. -/
def sharingText : String :=
  "push_str \"a\"\nmov r15 top\nmain:\npush r15\npush_str \"b\"\npush_str \"a\"\nentrypoint main"

/-- The program of `sharingText`. -/
def sharingProgram : Program where
  strings := [[0x61], [0x62]]
  entrypoint := 3
  code := #[{ op := .nop }, { op := .pushStr, value := .ofNat 0 },
    { op := .mov, tag := .top, register := 15 }, { op := .push, tag := .reg, register := 15 },
    { op := .pushStr, value := .ofNat 1 }, { op := .pushStr, value := .ofNat 0 }]

theorem executable_of_assemble_sharing :
    assemble sharingText = .ok sharingProgram ∧ sharingText.utf8ByteSize < 2 ^ 63 ∧
      sharingProgram.Executable ∧
      ∃ above l below, lines (Utf8.encode sharingText.toList) = above ++ l :: below ∧
        indexBehind above = 5 ∧ l.tokens = [.instruction .pushStr, .text [0x61]] := by
  have assembled : assemble sharingText = .ok sharingProgram := by decide +kernel
  have size : sharingText.utf8ByteSize < 2 ^ 63 := by decide +kernel
  obtain ⟨executable, strings, -⟩ := executable_of_assemble assembled size
  obtain ⟨above, l, below, bytes, split, index, tokens, found⟩ := strings 5 _ rfl rfl
  have first : bytes = [0x61] := (Option.some.inj found).symm
  exact ⟨assembled, size, executable, above, l, below, split, index.symm, by rw [tokens, first]⟩

end Assembly

end StackLang
