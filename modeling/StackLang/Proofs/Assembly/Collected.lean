import Mathlib.Data.List.Induction
import StackLang.Proofs.Assembly.Labels

/-!
# What is collected from the lines of a text

A draft holds exactly what the lines that were read say: behind the leading `nop` one instruction
for each line with an instruction, whose operand is encoded; the labels that are defined, each once
and with the index of the instruction that comes next; and the label that the last `entrypoint`
line names. `Draft.Collects` says so, and `Collects.addLine_isOk_iff` says which lines may follow:
those that hold a statement and define no label a second time.
-/

namespace StackLang.Assembly

open Bytecode

/-! ## The labels of a text -/

/-- The label that a line defines. -/
def Line.label? (l : Line) : Option String :=
  match l.tokens with
  | [.name name, .colon] => some name
  | _ => none

/-- The label that a line makes the entry of the program. -/
def Line.entry? (l : Line) : Option String :=
  match l.tokens with
  | [.instruction .entrypoint, .name name] => some name
  | _ => none

/-- The label that the jump on a line goes to. -/
def Line.target? (l : Line) : Option String :=
  match l.tokens with
  | [.instruction op, .name name] => if op.isJump then some name else none
  | _ => none

/-- The labels that the lines define, in order. -/
def definedLabels (ls : List Line) : List String := ls.filterMap Line.label?

/-- The label that the last of the lines with an entry names. -/
def entryLabel? (ls : List Line) : Option String := (ls.filterMap Line.entry?).getLast?

theorem Line.label?_eq_some_iff {l : Line} {name : String} :
    l.label? = some name ↔ l.tokens = [.name name, .colon] := by
  unfold Line.label?
  split <;> simp_all

theorem mem_definedLabels_iff {ls : List Line} {name : String} :
    name ∈ definedLabels ls ↔ ∃ index, Defines ls name index := by
  unfold definedLabels
  simp only [List.mem_filterMap, Line.label?_eq_some_iff]
  constructor
  · rintro ⟨l, mem, tokens⟩
    obtain ⟨above, below, split⟩ := List.append_of_mem mem
    exact ⟨_, above, l, below, split, tokens, rfl⟩
  · rintro ⟨_, above, l, below, rfl, tokens, -⟩
    exact ⟨l, by simp, tokens⟩

/-- One more line defines at most its own label, for the instruction that comes next. -/
theorem defines_snoc_iff {ls : List Line} {l : Line} {name : String} {index : Nat} :
    Defines (ls ++ [l]) name index ↔
      Defines ls name index ∨ l.tokens = [.name name, .colon] ∧ index = indexBehind ls := by
  constructor
  · rintro ⟨above, m, below, split, tokens, rfl⟩
    obtain rfl | ⟨below, last, rfl⟩ := below.eq_nil_or_concat
    · obtain ⟨rfl, same⟩ := List.append_inj' split rfl
      cases same
      exact .inr ⟨tokens, rfl⟩
    · have regrouped : ls ++ [l] = (above ++ m :: below) ++ [last] := by simpa using split
      obtain ⟨rfl, -⟩ := List.append_inj' regrouped rfl
      exact .inl ⟨above, m, below, rfl, tokens, rfl⟩
  · rintro (before | ⟨tokens, rfl⟩)
    · exact before.append [l]
    · exact ⟨ls, l, [], rfl, tokens, rfl⟩

theorem entryLabel?_snoc (ls : List Line) (l : Line) :
    entryLabel? (ls ++ [l]) = l.entry?.or (entryLabel? ls) := by
  unfold entryLabel?
  rw [List.filterMap_append, List.getLast?_append]
  cases entry : l.entry? <;> simp [entry]

theorem definedLabels_snoc (ls : List Line) (l : Line) :
    definedLabels (ls ++ [l]) = definedLabels ls ++ l.label?.toList := by
  unfold definedLabels
  rw [List.filterMap_append]
  cases label : l.label? <;> simp [label]

/-! ## Encoded operands -/

/-- The instruction that `op` with an operand is encoded as, in a program with the string table
`strings` in which a label stands for a word. -/
inductive Operand.Encodes (strings : List (List UInt8)) (stands : String → Word → Prop) (op : Op) :
    Operand → Instruction → Prop where
  | none : Encodes strings stands op .none { op }
  | literal (v : Value) :
      Encodes strings stands op (.literal v) { op, value := v.word, tag := v.tag }
  | register (r : Nat) :
      Encodes strings stands op (.register r) { op, tag := .reg, register := UInt64.ofNat r }
  | text {bytes : List UInt8} {index : Nat} (listed : strings[index]? = some bytes) :
      Encodes strings stands op (.text bytes) { op, value := .ofNat index }
  | loadTop (r : Nat) :
      Encodes strings stands op (.load r Option.none)
        { op, tag := .top, register := UInt64.ofNat r }
  | load (r : Nat) (v : Value) :
      Encodes strings stands op (.load r (some v))
        { op, value := v.word, tag := v.tag, register := UInt64.ofNat r }
  | index (n : Word) : Encodes strings stands op (.index n) { op, value := n }
  | label {name : String} {w : Word} (h : stands name w) :
      Encodes strings stands op (.label name) { op, value := w }

/-- A table that has grown encodes what it encoded before. -/
theorem Operand.Encodes.mono {strings more : List (List UInt8)} {stands : String → Word → Prop}
    {op : Op} {operand : Operand} {i : Instruction} (h : operand.Encodes strings stands op i)
    (grown : strings <+: more) : operand.Encodes more stands op i := by
  cases h with
  | none => exact .none
  | literal v => exact .literal v
  | register r => exact .register r
  | text listed =>
    obtain ⟨added, rfl⟩ := grown
    have inside := (List.getElem?_eq_some_iff.1 listed).1
    exact .text (by rw [List.getElem?_append_left inside, listed])
  | loadTop r => exact .loadTop r
  | load r v => exact .load r v
  | index n => exact .index n
  | label h => exact .label h

/-- The slot holds the instruction of the line, with a zero where a label has to be put in. -/
def Slot.Says (strings : List (List UInt8)) (l : Line) (s : Slot) : Prop :=
  ∃ ts operand, l.tokens = .instruction s.instruction.op :: ts ∧
    OperandTokens s.instruction.op ts operand ∧
    operand.Encodes strings (fun _ w => w = .ofNat 0) s.instruction.op s.instruction ∧
    s.target = operand.label?.map (·, l.number)

theorem Slot.Says.mono {strings more : List (List UInt8)} {l : Line} {s : Slot}
    (h : s.Says strings l) (grown : strings <+: more) : s.Says more l := by
  obtain ⟨ts, operand, tokens, written, encodes, target⟩ := h
  exact ⟨ts, operand, tokens, written, encodes.mono grown, target⟩

/-! ## Statements -/

/-- The line is read up to its end and holds a statement. -/
def Line.IsStatement (l : Line) : Prop := l.IsWhole ∧ ∃ s, StatementTokens l.tokens s

/-- A jump that waits for a label is a line with the label for its target. -/
theorem OperandTokens.target?_eq {op : Op} {ts : List Token} {operand : Operand}
    (h : OperandTokens op ts operand) {l : Line} (tokens : l.tokens = .instruction op :: ts) :
    l.target? = operand.label? := by
  unfold Line.target?
  rw [tokens]
  cases h with
  | label name jump => simp [jump, Operand.label?]
  | literal h => cases h <;> rfl
  | _ => rfl

/-- A jump has a number or a label for its target. -/
theorem OperandTokens.cases_of_isJump {op : Op} {ts : List Token} {operand : Operand}
    (h : OperandTokens op ts operand) (jump : op.isJump) :
    (∃ n, ts = [.number n]) ∨ ∃ name, ts = [.name name] := by
  cases h with
  | none h => cases op <;> simp_all [Op.isJump, Op.hasOperand]
  | index n => exact .inl ⟨n, rfl⟩
  | label name => exact .inr ⟨name, rfl⟩
  | _ => cases jump

theorem Line.isInstruction_of_tokens {l : Line} {op : Op} {ts : List Token}
    (tokens : l.tokens = .instruction op :: ts) (ne : op ≠ .entrypoint) : l.isInstruction := by
  unfold Line.isInstruction
  rw [tokens]
  exact bne_iff_ne.2 ne

theorem Line.entry?_of_instruction {l : Line} {op : Op} {ts : List Token}
    (tokens : l.tokens = .instruction op :: ts) (ne : op ≠ .entrypoint) : l.entry? = none := by
  unfold Line.entry?
  rw [tokens]
  split
  · rename_i same
    cases same
    exact absurd rfl ne
  · rfl

namespace Draft

@[simp] theorem add_labels (d : Draft) (line : Nat) (op : Op) (operand : Operand) :
    (d.add line op operand).labels = d.labels := by
  cases operand with
  | load r source => cases source <;> rfl
  | _ => rfl

@[simp] theorem add_entry (d : Draft) (line : Nat) (op : Op) (operand : Operand) :
    (d.add line op operand).entry = d.entry := by
  cases operand with
  | load r source => cases source <;> rfl
  | _ => rfl

/-- The slot of an instruction says what its line does. -/
theorem exists_slot_says (d : Draft) {l : Line} {op : Op} {ts : List Token} {operand : Operand}
    (tokens : l.tokens = .instruction op :: ts) (written : OperandTokens op ts operand) :
    ∃ slot : Slot, (d.add l.number op operand).slots = d.slots.push slot ∧
      d.strings <+: (d.add l.number op operand).strings ∧
      slot.Says (d.add l.number op operand).strings l := by
  cases operand with
  | none =>
    exact ⟨_, rfl, List.prefix_rfl, ts, _, tokens, written, .none, rfl⟩
  | literal v =>
    exact ⟨_, rfl, List.prefix_rfl, ts, _, tokens, written, .literal v, rfl⟩
  | register r =>
    exact ⟨_, rfl, List.prefix_rfl, ts, _, tokens, written, .register r, rfl⟩
  | text bytes =>
    obtain ⟨grown, listed⟩ := intern_spec d.strings bytes
    exact ⟨_, rfl, grown, ts, _, tokens, written, .text listed, rfl⟩
  | load r source =>
    cases source with
    | none => exact ⟨_, rfl, List.prefix_rfl, ts, _, tokens, written, .loadTop r, rfl⟩
    | some v => exact ⟨_, rfl, List.prefix_rfl, ts, _, tokens, written, .load r v, rfl⟩
  | index n =>
    exact ⟨_, rfl, List.prefix_rfl, ts, _, tokens, written, .index n, rfl⟩
  | label name =>
    exact ⟨_, rfl, List.prefix_rfl, ts, _, tokens, written, .label rfl, rfl⟩

/-- The draft holds what the lines `ls` say and nothing else. -/
structure Collects (ls : List Line) (d : Draft) : Prop where
  labels : ∀ name index, d.labels.lookup name = some index ↔ Defines ls name index
  entry : d.entry.map Prod.fst = entryLabel? ls
  code : ∃ slots, d.slots.toList = ⟨{ op := .nop }, none⟩ :: slots ∧
    List.Forall₂ (Slot.Says d.strings) (ls.filter Line.isInstruction) slots

theorem collects_empty : empty.Collects [] where
  labels name index := by
    refine iff_of_false (by simp [empty]) ?_
    rintro ⟨_ | ⟨_, _⟩, l, below, split, -⟩ <;> cases split
  entry := rfl
  code := ⟨[], rfl, .nil⟩

namespace Collects

variable {ls : List Line} {d d' : Draft} {l : Line}

theorem size_eq (h : d.Collects ls) : d.slots.size = indexBehind ls := by
  obtain ⟨slots, all, each⟩ := h.code
  rw [← Array.length_toList, all, List.length_cons, indexBehind, each.length_eq, Nat.add_comm]

theorem isSome_lookup_iff (h : d.Collects ls) (name : String) :
    (d.labels.lookup name).isSome ↔ name ∈ definedLabels ls := by
  rw [Option.isSome_iff_exists, mem_definedLabels_iff]
  exact exists_congr (h.labels name)

/-- A line that is no label defines nothing. -/
theorem labels_snoc (h : d.Collects ls) (none : l.label? = none) (name : String) (index : Nat) :
    d.labels.lookup name = some index ↔ Defines (ls ++ [l]) name index := by
  have other : l.tokens ≠ [.name name, .colon] := by
    intro tokens
    rw [Line.label?_eq_some_iff.2 tokens] at none
    cases none
  rw [defines_snoc_iff, h.labels, or_iff_left fun new => other new.1]

/-- Which lines may follow the ones collected. -/
theorem addLine_isOk_iff (h : d.Collects ls) (clean : .newline ∉ l.tokens) :
    (∃ d', d.addLine l = .ok d') ↔
      l.IsStatement ∧ ∀ name, l.label? = some name → name ∉ definedLabels ls := by
  have fresh (name : String) :
      (∃ d', d.addStatement l.number (.label name) = .ok d') ↔ name ∉ definedLabels ls := by
    rw [← h.isSome_lookup_iff]
    by_cases found : (d.labels.lookup name).isSome <;> simp [addStatement, found]
  constructor
  · rintro ⟨d', added⟩
    obtain ⟨s, tokens, whole, added⟩ := (addLine_eq_ok_iff clean).1 added
    refine ⟨⟨whole, s, tokens⟩, fun name label => ?_⟩
    rw [Line.label?_eq_some_iff.1 label] at tokens
    cases tokens
    exact (fresh name).1 ⟨d', added⟩
  · rintro ⟨⟨whole, s, tokens⟩, new⟩
    have taken : ∃ d', d.addStatement l.number s = .ok d' := by
      cases s with
      | label name =>
        refine (fresh name).2 (new name (Line.label?_eq_some_iff.2 ?_))
        generalize l.tokens = ts at tokens
        cases tokens
        rfl
      | _ => exact ⟨_, rfl⟩
    obtain ⟨d', added⟩ := taken
    exact ⟨d', (addLine_eq_ok_iff clean).2 ⟨s, tokens, whole, added⟩⟩

/-- A line more. -/
theorem addLine (h : d.Collects ls) (clean : .newline ∉ l.tokens) (added : d.addLine l = .ok d') :
    d'.Collects (ls ++ [l]) := by
  obtain ⟨s, statement, -, added⟩ := (addLine_eq_ok_iff clean).1 added
  obtain ⟨number, tokens, ending⟩ := l
  dsimp only at statement
  cases statement with
  | blank =>
    cases added
    refine ⟨h.labels_snoc rfl, ?_, ?_⟩
    · rw [entryLabel?_snoc, h.entry]
      rfl
    · simpa [Line.isInstruction] using h.code
  | label name =>
    unfold addStatement at added
    dsimp only at added
    split at added
    · cases added
    rename_i fresh
    cases added
    refine ⟨fun other index => ?_, ?_, ?_⟩
    · rw [List.lookup_cons, defines_snoc_iff, ← h.labels]
      by_cases same : other = name
      · subst same
        have unknown : d.labels.lookup other = none := Option.not_isSome_iff_eq_none.1 fresh
        simp [unknown, h.size_eq, eq_comm]
      · have ne : name ≠ other := Ne.symm same
        rw [beq_eq_false_iff_ne.2 same]
        simp [ne]
    · rw [entryLabel?_snoc, h.entry]
      rfl
    · simpa [Line.isInstruction] using h.code
  | entrypoint name =>
    cases added
    refine ⟨h.labels_snoc rfl, ?_, ?_⟩
    · rw [entryLabel?_snoc]
      rfl
    · simpa [Line.isInstruction] using h.code
  | @instruction op ts operand ne written =>
    cases added
    obtain ⟨slots, all, each⟩ := h.code
    obtain ⟨slot, pushed, grown, filled⟩ :=
      exists_slot_says d (l := ⟨number, .instruction op :: ts, ending⟩) rfl written
    refine ⟨fun name index => ?_, ?_, slots ++ [slot], ?_, ?_⟩
    · rw [add_labels]
      exact h.labels_snoc (by simp [Line.label?]) name index
    · rw [entryLabel?_snoc, Line.entry?_of_instruction rfl ne, add_entry, h.entry]
      rfl
    · rw [pushed, Array.toList_push, all, List.cons_append]
    · have kept : Line.isInstruction ⟨number, .instruction op :: ts, ending⟩ :=
        Line.isInstruction_of_tokens rfl ne
      rw [List.filter_append, List.filter_cons_of_pos kept]
      exact List.rel_append (each.imp fun _ _ said => said.mono grown) (.cons filled .nil)

end Collects

/-! ## Whole texts -/

theorem foldlM_snoc_eq_ok_iff {ls : List Line} {l : Line} {d d' : Draft} :
    (ls ++ [l]).foldlM Draft.addLine d = .ok d' ↔
      ∃ d1, ls.foldlM Draft.addLine d = .ok d1 ∧ d1.addLine l = .ok d' := by
  rw [List.foldlM_append, bind_eq_ok_iff]
  simp only [List.foldlM_cons, List.foldlM_nil, bind_pure]

variable {ls : List Line} {d : Draft}

/-- The draft of a text holds what the text says. -/
theorem collects_of_addLines (clean : ∀ l ∈ ls, .newline ∉ l.tokens)
    (collected : ls.foldlM Draft.addLine .empty = .ok d) : d.Collects ls := by
  induction ls using List.reverseRecOn generalizing d with
  | nil =>
    cases collected
    exact collects_empty
  | append_singleton ls l ih =>
    rw [List.forall_mem_append] at clean
    obtain ⟨d1, before, last⟩ := foldlM_snoc_eq_ok_iff.1 collected
    exact (ih clean.1 before).addLine (clean.2 l List.mem_cons_self) last

/-- Which texts have a draft: each line holds a statement and no label is defined twice. -/
theorem addLines_isOk_iff (clean : ∀ l ∈ ls, .newline ∉ l.tokens) :
    (∃ d, ls.foldlM Draft.addLine .empty = .ok d) ↔
      (∀ l ∈ ls, l.IsStatement) ∧ (definedLabels ls).Nodup := by
  induction ls using List.reverseRecOn with
  | nil => simp [definedLabels]
  | append_singleton ls l ih =>
    rw [List.forall_mem_append] at clean
    have last (d : Draft) (collected : ls.foldlM Draft.addLine .empty = .ok d) :=
      (collects_of_addLines clean.1 collected).addLine_isOk_iff (clean.2 l List.mem_cons_self)
    have once : (definedLabels (ls ++ [l])).Nodup ↔
        (definedLabels ls).Nodup ∧ ∀ name, l.label? = some name → name ∉ definedLabels ls := by
      rw [definedLabels_snoc, List.perm_append_comm.nodup_iff]
      cases l.label? <;> simp [and_comm]
    rw [List.forall_mem_append, List.forall_mem_singleton, once]
    constructor
    · rintro ⟨d', collected⟩
      obtain ⟨d, before, added⟩ := foldlM_snoc_eq_ok_iff.1 collected
      obtain ⟨each, distinct⟩ := (ih clean.1).1 ⟨d, before⟩
      obtain ⟨statement, fresh⟩ := (last d before).1 ⟨d', added⟩
      exact ⟨⟨each, statement⟩, distinct, fresh⟩
    · rintro ⟨⟨each, statement⟩, distinct, fresh⟩
      obtain ⟨d, before⟩ := (ih clean.1).2 ⟨each, distinct⟩
      obtain ⟨d', added⟩ := (last d before).2 ⟨statement, fresh⟩
      exact ⟨d', foldlM_snoc_eq_ok_iff.2 ⟨d, before, added⟩⟩

end Draft

end StackLang.Assembly
