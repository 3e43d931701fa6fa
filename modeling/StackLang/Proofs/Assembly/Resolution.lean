import StackLang.Proofs.Assembly.Acceptance

/-!
# How labels are resolved

A label stands for the index of the instruction that comes next, and every use of it, above or
below its definition, is given exactly that index: an instruction whose operand is the label holds
it, and a program starts at what the label of the last `entrypoint` line stands for. Putting the
indices in changes nothing else, `Slot.FilledBy`.
-/

namespace StackLang.Assembly

open Bytecode Text

/-- The labels of the lines `ls` are resolved in the program `p`: an instruction with a label for
its operand stands at its own index and holds the one of the label. -/
structure Resolves (ls : List Line) (p : Program) : Prop where
  operand : ∀ above l below op name, ls = above ++ l :: below →
    l.tokens = [.instruction op, .name name] → op ≠ .entrypoint →
    ∃ index, Defines ls name index ∧
      p.code[indexBehind above]? = some { op, value := .ofNat index }
  unique : ∀ name i j, Defines ls name i → Defines ls name j → i = j
  entry : ∀ name, entryLabel? ls = some name → Defines ls name p.entrypoint
  start : entryLabel? ls = none → p.entrypoint = 0
  range : ∀ name index, Defines ls name index → 1 ≤ index ∧ index ≤ p.code.size

/-- The instruction is the one of the slot but for its value, which changes only if the slot waits
for a label. -/
def Slot.FilledBy (s : Slot) (i : Instruction) : Prop :=
  i = { s.instruction with value := i.value } ∧ (s.target = none → i = s.instruction)

theorem Slot.filledBy_of_resolveSlot {labels : List (String × Nat)} {s : Slot} {i : Instruction}
    (h : Draft.resolveSlot labels s = .ok i) : s.FilledBy i := by
  unfold Draft.resolveSlot at h
  split at h
  · cases h
    exact ⟨rfl, fun _ => rfl⟩
  · rename_i name line waits
    obtain ⟨index, -, last⟩ := bind_eq_ok_iff.1 h
    cases last
    refine ⟨rfl, fun free => ?_⟩
    rw [waits] at free
    cases free

/-- An operand that is one name is a label. -/
theorem OperandTokens.eq_label {op : Op} {name : String} {operand : Operand}
    (h : OperandTokens op [.name name] operand) : operand = .label name := by
  cases h with
  | literal h => cases h
  | label name jump => rfl

theorem Line.Becomes.of_label {ls : List Line} {strings : List (List UInt8)} {l : Line}
    {i : Instruction} {op : Op} {name : String} (h : l.Becomes ls strings i)
    (tokens : l.tokens = [.instruction op, .name name]) :
    ∃ index, Defines ls name index ∧ i = { op, value := .ofNat index } := by
  obtain ⟨ts, operand, same, written, encodes⟩ := h
  obtain ⟨op', value, tag, register⟩ := i
  rw [tokens] at same
  cases same
  obtain rfl := written.eq_label
  cases encodes with
  | label stands =>
    obtain ⟨index, defines, rfl⟩ := stands
    exact ⟨index, defines, rfl⟩

/-- The instruction of a line stands at the index behind the lines above. -/
theorem exists_becomes_of_assembleBytes {bytes : List UInt8} {p : Program}
    (h : assembleBytes bytes = .ok p) {above below : List Line} {l : Line}
    (split : lines bytes = above ++ l :: below) (kept : l.isInstruction) :
    ∃ i, p.code[indexBehind above]? = some i ∧ l.Becomes (lines bytes) p.strings i := by
  obtain ⟨code, shape, each⟩ := becomes_of_assembleBytes h
  have cut : (lines bytes).filter Line.isInstruction =
      above.filter Line.isInstruction ++ l :: below.filter Line.isInstruction := by
    rw [split, List.filter_append, List.filter_cons_of_pos kept]
  rw [cut] at each
  obtain ⟨i, place, becomes⟩ := exists_getElem?_of_forall₂ each
  refine ⟨i, ?_, becomes⟩
  rw [← Array.getElem?_toList, shape, indexBehind, Nat.add_comm, List.getElem?_cons_succ, place]

/-- An instruction behind the leading `nop` stands on a line, and its index is the number of
instructions above. -/
theorem exists_line_of_getElem? {bytes : List UInt8} {p : Program}
    (h : assembleBytes bytes = .ok p) {k : Nat} {i : Instruction} (place : p.code[k]? = some i) :
    k = 0 ∧ i = { op := .nop } ∨
      ∃ above l below, lines bytes = above ++ l :: below ∧ k = indexBehind above ∧
        l.isInstruction ∧ l.Becomes (lines bytes) p.strings i := by
  obtain ⟨code, shape, each⟩ := becomes_of_assembleBytes h
  rw [← Array.getElem?_toList, shape] at place
  cases k with
  | zero =>
    cases place
    exact .inl ⟨rfl, rfl⟩
  | succ k =>
    right
    rw [List.getElem?_cons_succ] at place
    obtain ⟨inside, rfl⟩ := List.getElem?_eq_some_iff.1 place
    have line : k < ((lines bytes).filter Line.isInstruction).length := by
      rwa [each.length_eq]
    have cut := List.take_append_drop k ((lines bytes).filter Line.isInstruction)
    rw [List.drop_eq_getElem_cons line] at cut
    obtain ⟨above, below, split, front⟩ := exists_split_of_filter cut.symm
    have index : k + 1 = indexBehind above := by
      rw [indexBehind, front, List.length_take, Nat.min_eq_left (Nat.le_of_lt line), Nat.add_comm]
    have kept := (List.mem_filter.1 (List.getElem_mem line)).2
    exact ⟨above, _, below, split, index, kept, (List.forall₂_iff_get.1 each).2 k line inside⟩

theorem resolves_of_assembleBytes {bytes : List UInt8} {p : Program}
    (h : assembleBytes bytes = .ok p) : Resolves (lines bytes) p := by
  obtain ⟨d, collected, finished⟩ := bind_eq_ok_iff.1 h
  have collects := Draft.collects_of_addLines newline_not_mem_lines collected
  obtain ⟨-, started, -⟩ := Draft.finish_eq_ok_iff.1 finished
  obtain ⟨entered, free⟩ := Draft.start_eq_ok started
  constructor
  case operand =>
    intro above l below op name split tokens ne
    have kept := Line.isInstruction_of_tokens tokens ne
    obtain ⟨i, place, becomes⟩ := exists_becomes_of_assembleBytes h split kept
    obtain ⟨index, defines, rfl⟩ := becomes.of_label tokens
    exact ⟨index, defines, place⟩
  case unique =>
    intro name i j first second
    have same := (collects.labels name i).2 first
    rw [(collects.labels name j).2 second] at same
    exact (Option.some.inj same).symm
  case entry =>
    intro name last
    rw [← collects.entry] at last
    exact (collects.labels name _).1 (entered name last)
  case start =>
    intro none
    rw [← collects.entry, Option.map_eq_none_iff] at none
    exact free none
  case range =>
    intro name index defines
    rw [size_of_assembleBytes h]
    exact defines.bounds

/-- **Labels are resolved exactly.** The indices of a text that fits in memory are integers of the
machine. What has been collected before the indices are put in is the program but for the values
of the instructions that wait for a label. -/
theorem resolves_of_assemble {text : String} {p : Program} (h : assemble text = .ok p) :
    Resolves (lines (Utf8.encode text.toList)) p ∧
      (text.utf8ByteSize < 2 ^ 63 → ∀ name index,
        Defines (lines (Utf8.encode text.toList)) name index →
          (Word.ofNat index).toInt = index) ∧
      ∃ d, (lines (Utf8.encode text.toList)).foldlM Draft.addLine .empty = .ok d ∧
        List.Forall₂ Slot.FilledBy d.slots.toList p.code.toList := by
  refine ⟨resolves_of_assembleBytes h, fun size name index defines => ?_, ?_⟩
  · exact Word.toInt_ofNat (Nat.lt_of_le_of_lt defines.bounds.2 (indexBehind_lines_lt size))
  · obtain ⟨d, collected, finished⟩ := bind_eq_ok_iff.1 h
    obtain ⟨resolved, -, -⟩ := Draft.finish_eq_ok_iff.1 finished
    have filled := forall₂_of_mapM_eq_ok resolved
    exact ⟨d, collected, filled.imp fun _ _ => Slot.filledBy_of_resolveSlot⟩

theorem resolves_of_assemble_routine :
    assemble routineText = .ok routineProgram ∧
      Defines (lines (Utf8.encode routineText.toList)) "done" routineProgram.entrypoint ∧
      ∃ index, Defines (lines (Utf8.encode routineText.toList)) "loop" index ∧
        routineProgram.code[2]? = some { op := .call, value := .ofNat index } := by
  have resolves := (resolves_of_assemble assemble_routineText).1
  let ls := lines (Utf8.encode routineText.toList)
  let l : Line := ⟨5, [.instruction .call, .name "loop"], .newline⟩
  have split : ls = ls.take 4 ++ l :: ls.drop 5 := by decide +kernel
  have place : indexBehind (ls.take 4) = 2 := by decide +kernel
  have call := resolves.operand _ _ _ _ _ split rfl (by decide)
  rw [place] at call
  exact ⟨assemble_routineText, resolves.entry "done" (by decide +kernel), call⟩

end StackLang.Assembly
