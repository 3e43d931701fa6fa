import StackLang.Proofs.Assembly.Collected

/-!
# Which texts assemble

A text assembles exactly if it is well formed: each line holds a statement, no label is defined
twice, and the labels of the jumps and of the last `entrypoint` line are defined somewhere. The
first two are what collecting the lines checks and the others are what resolving the labels does,
`finish_isOk_iff`. The program is then a `nop` and what each line with an instruction becomes.
-/

namespace StackLang.Assembly

open Bytecode Text

/-- The texts that assemble. -/
structure WellFormed (ls : List Line) : Prop where
  lines : ∀ l ∈ ls, l.IsStatement
  once : (definedLabels ls).Nodup
  jumps : ∀ l ∈ ls, ∀ name, l.target? = some name → name ∈ definedLabels ls
  entry : ∀ name, entryLabel? ls = some name → name ∈ definedLabels ls

/-- The line becomes the instruction, in a program with the string table `strings` that is
assembled from the lines `ls`. -/
def Line.Becomes (ls : List Line) (strings : List (List UInt8)) (l : Line) (i : Instruction) :
    Prop :=
  ∃ ts operand, l.tokens = .instruction i.op :: ts ∧ OperandTokens i.op ts operand ∧
    operand.Encodes strings (fun name w => ∃ index, Defines ls name index ∧ w = .ofNat index)
      i.op i

theorem Line.target?_eq_some_iff {l : Line} {name : String} :
    l.target? = some name ↔ ∃ op, l.tokens = [.instruction op, .name name] ∧ op.isJump := by
  unfold Line.target?
  split
  · rename_i op other tokens
    simp [tokens, and_comm]
  · rename_i free
    constructor
    · intro h
      cases h
    · rintro ⟨op, tokens, -⟩
      exact absurd tokens (free op name)

theorem Slot.Says.target_eq {strings : List (List UInt8)} {l : Line} {s : Slot}
    (h : s.Says strings l) : s.target = l.target?.map (·, l.number) := by
  obtain ⟨ts, operand, tokens, written, -, target⟩ := h
  rw [target, written.target?_eq tokens]

/-! ## Resolved labels -/

namespace Draft

theorem resolve_eq_ok_iff {labels : List (String × Nat)} {name : String} {line index : Nat} :
    resolve labels name line = .ok index ↔ labels.lookup name = some index := by
  unfold resolve
  cases labels.lookup name <;> simp

theorem resolveSlot_isOk_iff {labels : List (String × Nat)} {s : Slot} :
    (∃ i, resolveSlot labels s = .ok i) ↔
      ∀ name line, s.target = some (name, line) → (labels.lookup name).isSome := by
  unfold resolveSlot
  split
  · rename_i free
    simp [free]
  · rename_i name line waits
    simp only [waits, Option.some.injEq, Prod.mk.injEq, Option.isSome_iff_exists]
    constructor
    · rintro ⟨i, resolved⟩ _ _ ⟨rfl, rfl⟩
      obtain ⟨index, found, -⟩ := bind_eq_ok_iff.1 resolved
      exact ⟨index, resolve_eq_ok_iff.1 found⟩
    · intro known
      obtain ⟨index, found⟩ := known name line ⟨rfl, rfl⟩
      exact ⟨_, bind_eq_ok_iff.2 ⟨index, resolve_eq_ok_iff.2 found, rfl⟩⟩

theorem start_isOk_iff {d : Draft} :
    (∃ index, d.start = .ok index) ↔
      ∀ name, d.entry.map Prod.fst = some name → (d.labels.lookup name).isSome := by
  unfold start
  cases d.entry with
  | none => simp
  | some use => simp [resolve_eq_ok_iff, Option.isSome_iff_exists]

theorem start_eq_ok {d : Draft} {index : Nat} (h : d.start = .ok index) :
    (∀ name, d.entry.map Prod.fst = some name → d.labels.lookup name = some index) ∧
      (d.entry = none → index = 0) := by
  unfold start at h
  cases entry : d.entry with
  | none =>
    rw [entry] at h
    cases h
    simp
  | some use =>
    rw [entry] at h
    simpa using resolve_eq_ok_iff.1 h

/-- A draft is finished exactly if all labels that it waits for are known. -/
theorem finish_isOk_iff {d : Draft} :
    (∃ p, d.finish = .ok p) ↔
      (∀ s ∈ d.slots.toList, ∀ name line, s.target = some (name, line) →
        (d.labels.lookup name).isSome) ∧
      ∀ name, d.entry.map Prod.fst = some name → (d.labels.lookup name).isSome := by
  simp only [← resolveSlot_isOk_iff, ← exists_mapM_eq_ok_iff, ← start_isOk_iff, finish_eq_ok_iff]
  constructor
  · rintro ⟨p, resolved, started, -⟩
    exact ⟨⟨_, resolved⟩, _, started⟩
  · rintro ⟨⟨code, resolved⟩, index, started⟩
    exact ⟨⟨d.strings, index, code.toArray⟩, resolved, started, rfl⟩

namespace Collects

variable {ls : List Line} {d : Draft}

/-- The labels that the slots wait for are those of the jumps. -/
theorem slots_resolve_iff (h : d.Collects ls) :
    (∀ s ∈ d.slots.toList, ∀ name line, s.target = some (name, line) →
        (d.labels.lookup name).isSome) ↔
      ∀ l ∈ ls, ∀ name, l.target? = some name → name ∈ definedLabels ls := by
  obtain ⟨slots, all, each⟩ := h.code
  simp only [all, h.isSome_lookup_iff, List.forall_mem_cons]
  constructor
  · rintro ⟨-, known⟩ l mem name target
    obtain ⟨op, tokens, jump⟩ := Line.target?_eq_some_iff.1 target
    have ne : op ≠ .entrypoint := by
      rintro rfl
      cases jump
    have kept := Line.isInstruction_of_tokens tokens ne
    obtain ⟨s, filled, said⟩ := exists_mem_of_forall₂ each.flip (List.mem_filter.2 ⟨mem, kept⟩)
    exact known s filled name l.number (by rw [Slot.Says.target_eq said, target]; rfl)
  · intro known
    refine ⟨fun _ _ waits => (by cases waits), fun s mem name line waits => ?_⟩
    obtain ⟨l, kept, said⟩ := exists_mem_of_forall₂ each mem
    rw [said.target_eq] at waits
    obtain ⟨other, target, same⟩ := Option.map_eq_some_iff.1 waits
    cases same
    exact known l (List.mem_of_mem_filter kept) _ target

/-- A draft with all labels known. -/
theorem finish_isOk_iff (h : d.Collects ls) :
    (∃ p, d.finish = .ok p) ↔
      (∀ l ∈ ls, ∀ name, l.target? = some name → name ∈ definedLabels ls) ∧
        ∀ name, entryLabel? ls = some name → name ∈ definedLabels ls := by
  rw [Draft.finish_isOk_iff, h.slots_resolve_iff, h.entry]
  simp only [h.isSome_lookup_iff]

end Collects

end Draft

/-- An instruction that waits for no label, or has what its label stands for. -/
theorem Slot.Says.becomes {ls : List Line} {strings : List (List UInt8)} {l : Line} {s : Slot}
    {labels : List (String × Nat)} {i : Instruction} (h : s.Says strings l)
    (known : ∀ name index, labels.lookup name = some index → Defines ls name index)
    (resolved : Draft.resolveSlot labels s = .ok i) : l.Becomes ls strings i := by
  obtain ⟨ts, operand, tokens, written, encodes, target⟩ := h
  obtain ⟨⟨op, value, tag, register⟩, target⟩ := s
  dsimp only at tokens written encodes target
  subst target
  cases encodes with
  | label zero =>
    obtain ⟨index, found, last⟩ := bind_eq_ok_iff.1 resolved
    cases last
    have defines := known _ index (Draft.resolve_eq_ok_iff.1 found)
    exact ⟨ts, _, tokens, written, .label ⟨index, defines, rfl⟩⟩
  | none | literal | register | text | loadTop | load | index =>
    cases resolved
    exact ⟨ts, _, tokens, written, by constructor <;> assumption⟩

/-! ## Texts -/

theorem assembleBytes_isOk_iff {bytes : List UInt8} :
    (∃ p, assembleBytes bytes = .ok p) ↔ WellFormed (lines bytes) := by
  constructor
  · rintro ⟨p, h⟩
    obtain ⟨d, collected, finished⟩ := bind_eq_ok_iff.1 h
    have collects := Draft.collects_of_addLines newline_not_mem_lines collected
    obtain ⟨each, once⟩ := (Draft.addLines_isOk_iff newline_not_mem_lines).1 ⟨d, collected⟩
    obtain ⟨jumps, entry⟩ := collects.finish_isOk_iff.1 ⟨p, finished⟩
    exact ⟨each, once, jumps, entry⟩
  · rintro ⟨each, once, jumps, entry⟩
    obtain ⟨d, collected⟩ := (Draft.addLines_isOk_iff newline_not_mem_lines).2 ⟨each, once⟩
    have collects := Draft.collects_of_addLines newline_not_mem_lines collected
    obtain ⟨p, finished⟩ := collects.finish_isOk_iff.2 ⟨jumps, entry⟩
    exact ⟨p, bind_eq_ok_iff.2 ⟨d, collected, finished⟩⟩

/-- What an assembled text has become. -/
theorem becomes_of_assembleBytes {bytes : List UInt8} {p : Program}
    (h : assembleBytes bytes = .ok p) :
    ∃ code, p.code.toList = { op := .nop } :: code ∧
      List.Forall₂ (Line.Becomes (lines bytes) p.strings)
        ((lines bytes).filter Line.isInstruction) code := by
  obtain ⟨d, collected, finished⟩ := bind_eq_ok_iff.1 h
  have collects := Draft.collects_of_addLines newline_not_mem_lines collected
  obtain ⟨slots, all, each⟩ := collects.code
  obtain ⟨code, shape, rest⟩ := Draft.exists_code_of_finish finished all
  obtain ⟨-, -, strings⟩ := Draft.finish_eq_ok_iff.1 finished
  refine ⟨code, shape, ?_⟩
  rw [strings]
  have known (name : String) (index : Nat) := (collects.labels name index).1
  exact forall₂_mapM each (fun l s i said found => said.becomes known found) rest

theorem size_of_assembleBytes {bytes : List UInt8} {p : Program}
    (h : assembleBytes bytes = .ok p) : p.code.size = indexBehind (lines bytes) := by
  obtain ⟨code, shape, each⟩ := becomes_of_assembleBytes h
  rw [← Array.length_toList, shape, List.length_cons, indexBehind, each.length_eq, Nat.add_comm]

/-- **What the assembler accepts.** A text assembles exactly if it is well formed. Its program is
then the leading `nop` and, in order, what each line with an instruction becomes. -/
theorem assemble_isOk_iff (text : String) :
    ((∃ p, assemble text = .ok p) ↔ WellFormed (lines (Utf8.encode text.toList))) ∧
      ∀ p, assemble text = .ok p →
        ∃ code, p.code.toList = { op := .nop } :: code ∧
          List.Forall₂ (Line.Becomes (lines (Utf8.encode text.toList)) p.strings)
            ((lines (Utf8.encode text.toList)).filter Line.isInstruction) code :=
  ⟨assembleBytes_isOk_iff, fun _ assembled => becomes_of_assembleBytes assembled⟩

/-- A text with a jump down, a call up and two entry labels. -/
def routineText : String :=
  "entrypoint loop\nloop:\n  zjmp done ; leaves\n\n  call loop\ndone:\n  halt\nentrypoint done"

/-- The program of `routineText`. -/
def routineProgram : Program where
  entrypoint := 3
  code := #[{ op := .nop }, { op := .zjmp, value := .ofNat 3 }, { op := .call, value := .ofNat 1 },
    { op := .halt }]

theorem assemble_routineText : assemble routineText = .ok routineProgram := by
  decide +kernel

theorem assemble_isOk_iff_routine :
    WellFormed (lines (Utf8.encode routineText.toList)) ∧
      ¬ WellFormed (lines (Utf8.encode "jmp nowhere".toList)) := by
  constructor
  · exact (assemble_isOk_iff routineText).1.1 ⟨routineProgram, assemble_routineText⟩
  · intro formed
    obtain ⟨p, assembled⟩ := (assemble_isOk_iff "jmp nowhere").1.2 formed
    have rejected : assemble "jmp nowhere" = .error ⟨1, .unknownLabel "nowhere"⟩ := by
      decide +kernel
    rw [rejected] at assembled
    cases assembled

end StackLang.Assembly
