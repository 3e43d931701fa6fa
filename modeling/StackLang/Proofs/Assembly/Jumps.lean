import StackLang.Proofs.Assembly.Resolution
import StackLang.Proofs.Machine.Flaws

/-!
# Jumps to labels

No label stands for the first instruction, and none for more than the place behind the last one.
That place is no target of a jump: a program may start there and has ended then, but the machine
refuses to jump to it. So a program whose jumps all go to labels fails at a jump for its target only
if the label on the line of this jump stands behind the last instruction of the text.
-/

namespace StackLang.Assembly

open Bytecode Text

/-- The label is defined, and no line below holds an instruction. -/
def EndsText (ls : List Line) (name : String) : Prop :=
  ∃ above l below, ls = above ++ l :: below ∧ l.tokens = [.name name, .colon] ∧
    ∀ m ∈ below, m.isInstruction = false

/-- The label is defined, and a line below holds an instruction. -/
def HeadsInstruction (ls : List Line) (name : String) : Prop :=
  ∃ above l below, ls = above ++ l :: below ∧ l.tokens = [.name name, .colon] ∧
    ∃ m ∈ below, m.isInstruction

/-- Whether a line holds a jump with a number for its target. -/
def Line.jumpsToNumber (l : Line) : Bool :=
  match l.tokens with
  | [.instruction op, .number _] => op.isJump
  | _ => false

/-- No jump of the text has a number for its target. -/
def JumpsToLabels (ls : List Line) : Prop := ∀ l ∈ ls, l.jumpsToNumber = false

instance (ls : List Line) : Decidable (JumpsToLabels ls) :=
  inferInstanceAs (Decidable (∀ l ∈ ls, l.jumpsToNumber = false))

/-! ## Places of labels -/

/-- A label that stands for the place behind the last instruction. -/
theorem Defines.endsText {ls : List Line} {name : String}
    (h : Defines ls name (indexBehind ls)) : EndsText ls name := by
  obtain ⟨above, l, below, rfl, tokens, index⟩ := h
  rw [indexBehind_append, Nat.add_eq_left, List.length_eq_zero_iff, List.filter_eq_nil_iff] at index
  refine ⟨above, l, below, rfl, tokens, fun m mem => ?_⟩
  exact eq_false_of_ne_true (index m (List.mem_cons_of_mem _ mem))

theorem HeadsInstruction.exists_lt {ls : List Line} {name : String}
    (h : HeadsInstruction ls name) : ∃ index, Defines ls name index ∧ index < indexBehind ls := by
  obtain ⟨above, l, below, rfl, tokens, m, mem, kept⟩ := h
  refine ⟨_, ⟨above, l, below, rfl, tokens, rfl⟩, ?_⟩
  rw [indexBehind_append]
  have inside := List.mem_filter.2 ⟨List.mem_cons_of_mem l mem, kept⟩
  exact Nat.lt_add_of_pos_right (List.length_pos_of_mem inside)

/-! ## Targets -/

/-- A jump stands on a line with a label, and its target is what the label stands for. -/
theorem exists_line_of_jump {bytes : List UInt8} {p : Program} (h : assembleBytes bytes = .ok p)
    (labels : JumpsToLabels (lines bytes)) {k : Nat} {i : Instruction}
    (place : p.code[k]? = some i) (jump : i.op.isJump) :
    ∃ above l below name index, lines bytes = above ++ l :: below ∧ k = indexBehind above ∧
      l.tokens = [.instruction i.op, .name name] ∧ Defines (lines bytes) name index ∧
      i.value = .ofNat index := by
  obtain ⟨-, rfl⟩ | ⟨above, l, below, split, index, -, becomes⟩ := exists_line_of_getElem? h place
  · cases jump
  have listed : l ∈ lines bytes := split ▸ List.mem_append_right _ List.mem_cons_self
  obtain ⟨ts, operand, tokens, written, -⟩ := id becomes
  obtain ⟨n, rfl⟩ | ⟨name, rfl⟩ := written.cases_of_isJump jump
  · have free := labels l listed
    rw [Line.jumpsToNumber, tokens] at free
    exact absurd jump (by simp [free])
  · obtain ⟨target, defines, same⟩ := becomes.of_label tokens
    exact ⟨above, l, below, name, target, split, index, tokens, defines, congrArg _ same⟩

/-- What is wrong with a jump to a label can only be that the label stands for the place behind the
last instruction. -/
theorem flaw_of_label {text : String} {p : Program} {i : Instruction} {name : String} {index : Nat}
    {e : Fault} (h : assemble text = .ok p) (size : text.utf8ByteSize < 2 ^ 63)
    (jump : i.op.isJump) (defines : Defines (lines (Utf8.encode text.toList)) name index)
    (value : i.value = .ofNat index) (flaw : p.flaw? i = some e) :
    e = .jumpOutOfBounds i.op index ∧ index = p.code.size := by
  obtain ⟨pos, inside⟩ := defines.bounds
  have small := Nat.lt_of_le_of_lt inside (indexBehind_lines_lt size)
  rw [← size_of_assembleBytes h] at inside
  rw [p.flaw?_of_isJump jump, value, Word.toInt_ofNat small, if_neg (by omega)] at flaw
  split at flaw
  · cases flaw
    exact ⟨rfl, by omega⟩
  · cases flaw

/-- **Jumps to labels.** If all jumps of a text go to labels, no run fails with a jump to zero. It
fails with a jump out of bounds only at an instruction whose line has a label that stands behind the
last instruction, so never at one whose label has an instruction below its definition. A text in
memory has fewer than `2 ^ 63` bytes, so an index of the program is an integer of the machine. -/
theorem jumps_of_assemble {text : String} {p : Program} {loader : Loader} {m n : Machine}
    {e : Fault} (h : assemble text = .ok p) (size : text.utf8ByteSize < 2 ^ 63)
    (labels : JumpsToLabels (lines (Utf8.encode text.toList)))
    (run : (Machine.start p loader).Reaches m) (failed : m.step = (some e, n)) :
    e ≠ .jumpToZero ∧
      (∀ op target, e = .jumpOutOfBounds op target → target = p.code.size ∧
        ∃ above l below name, lines (Utf8.encode text.toList) = above ++ l :: below ∧
          m.ip = indexBehind above ∧ l.tokens = [.instruction op, .name name] ∧
          EndsText (lines (Utf8.encode text.toList)) name) ∧
      ∀ above l below op name, lines (Utf8.encode text.toList) = above ++ l :: below →
        m.ip = indexBehind above → l.tokens = [.instruction op, .name name] → op.isJump →
        HeadsInstruction (lines (Utf8.encode text.toList)) name →
          ∀ op' target, e ≠ .jumpOutOfBounds op' target := by
  have blamed (target : e = .jumpToZero ∨ ∃ op t, e = .jumpOutOfBounds op t) :
      ∃ i, p.code[m.ip]? = some i ∧ p.flaw? i = some e ∧ i.op.isJump := by
    have static : e.isStatic := by
      obtain rfl | ⟨op, t, rfl⟩ := target <;> rfl
    obtain ⟨i, place, flaw⟩ := Machine.flaw_of_reaches run failed static
    exact ⟨i, place, flaw, Program.isJump_of_flaw flaw target⟩
  refine ⟨?_, ?_, ?_⟩
  · rintro rfl
    obtain ⟨i, place, flaw, jump⟩ := blamed (.inl rfl)
    obtain ⟨_, _, _, _, _, -, -, -, defines, value⟩ := exists_line_of_jump h labels place jump
    obtain ⟨other, -⟩ := flaw_of_label h size jump defines value flaw
    cases other
  · rintro op target rfl
    obtain ⟨i, place, flaw, jump⟩ := blamed (.inr ⟨op, target, rfl⟩)
    obtain ⟨above, l, below, name, index, split, ip, tokens, defines, value⟩ :=
      exists_line_of_jump h labels place jump
    obtain ⟨same, rfl⟩ := flaw_of_label h size jump defines value flaw
    cases same
    rw [size_of_assembleBytes h] at defines
    exact ⟨rfl, above, l, below, name, split, ip, tokens, defines.endsText⟩
  · rintro above l below op name split ip tokens jump heads op' target rfl
    obtain ⟨i, place, flaw, -⟩ := blamed (.inr ⟨op', target, rfl⟩)
    have ne : op ≠ .entrypoint := by
      rintro rfl
      cases jump
    have resolves := resolves_of_assembleBytes h
    obtain ⟨index, defines, place'⟩ := resolves.operand above l below op name split tokens ne
    rw [← ip, place, Option.some.injEq] at place'
    subst place'
    obtain ⟨-, rfl⟩ := flaw_of_label h size jump defines rfl flaw
    obtain ⟨other, defines', lt⟩ := heads.exists_lt
    rw [← size_of_assembleBytes h, resolves.unique name _ _ defines' defines] at lt
    exact Nat.lt_irrefl _ lt

/-- A jump to the end of its text. -/
def leavingText : String := "jmp done\ndone:"

/-- The program of `leavingText`. -/
def leavingProgram : Program where
  strings := []
  code := #[{ op := .nop }, { op := .jmp, value := .ofNat 2 }]

/-- The machine in front of the jump. -/
def leaving : Machine := { Machine.start leavingProgram .none with ip := 1 }

theorem assemble_leavingText : assemble leavingText = .ok leavingProgram := by
  decide +kernel

theorem reaches_leaving : (Machine.start leavingProgram .none).Reaches leaving :=
  .step (e := none) .refl rfl

theorem step_leaving : leaving.step = (some (.jumpOutOfBounds .jmp 2), leaving) := rfl

/-- A jump that fails for want of an operand, to a label in front of an instruction. -/
def stayingText : String := "zjmp on\non:\nhalt"

/-- The program of `stayingText`. -/
def stayingProgram : Program where
  strings := []
  code := #[{ op := .nop }, { op := .zjmp, value := .ofNat 2 }, { op := .halt }]

/-- The jump of `leavingText` fails at its line, and the one of `stayingText` not for its target. -/
theorem jumps_of_assemble_leaving :
    (assemble leavingText = .ok leavingProgram ∧ leavingText.utf8ByteSize < 2 ^ 63 ∧
      JumpsToLabels (lines (Utf8.encode leavingText.toList)) ∧
      (Machine.start leavingProgram .none).Reaches leaving ∧
      leaving.step = (some (.jumpOutOfBounds .jmp 2), leaving) ∧
      ∃ above l below name, lines (Utf8.encode leavingText.toList) = above ++ l :: below ∧
        1 = indexBehind above ∧ l.tokens = [.instruction .jmp, .name name] ∧
        EndsText (lines (Utf8.encode leavingText.toList)) name) ∧
    assemble stayingText = .ok stayingProgram ∧
      HeadsInstruction (lines (Utf8.encode stayingText.toList)) "on" ∧
      ∃ m e, (Machine.start stayingProgram .none).Reaches m ∧ m.step = (some e, m) ∧
        ∀ op target, e ≠ .jumpOutOfBounds op target := by
  refine ⟨?_, ?_⟩
  · have size : leavingText.utf8ByteSize < 2 ^ 63 := by decide +kernel
    have labels : JumpsToLabels (lines (Utf8.encode leavingText.toList)) := by decide +kernel
    obtain ⟨-, blamed, -⟩ :=
      jumps_of_assemble assemble_leavingText size labels reaches_leaving step_leaving
    exact ⟨assemble_leavingText, size, labels, reaches_leaving, step_leaving,
      (blamed .jmp 2 rfl).2⟩
  · have assembled : assemble stayingText = .ok stayingProgram := by decide +kernel
    have size : stayingText.utf8ByteSize < 2 ^ 63 := by decide +kernel
    have labels : JumpsToLabels (lines (Utf8.encode stayingText.toList)) := by decide +kernel
    have written : lines (Utf8.encode stayingText.toList) =
        [⟨1, [.instruction .zjmp, .name "on"], .newline⟩, ⟨2, [.name "on", .colon], .newline⟩,
          ⟨3, [.instruction .halt], .endOfText⟩] := by
      decide +kernel
    have heads : HeadsInstruction (lines (Utf8.encode stayingText.toList)) "on" :=
      written ▸ ⟨[_], _, [_], rfl, rfl, _, List.mem_cons_self, rfl⟩
    let m : Machine := { Machine.start stayingProgram .none with ip := 1 }
    have reached : (Machine.start stayingProgram .none).Reaches m := .step (e := none) .refl rfl
    have failed : m.step = (some .stackUnderflow, m) := rfl
    obtain ⟨-, -, legal⟩ := jumps_of_assemble assembled size labels reached failed
    exact ⟨assembled, heads, m, _, reached, failed,
      legal [] _ _ .zjmp "on" written rfl rfl rfl heads⟩

/-- A jump to a label is refused where the label stands behind the last instruction. -/
theorem jump_to_label_fails :
    ∃ p m n, assemble leavingText = .ok p ∧
      JumpsToLabels (lines (Utf8.encode leavingText.toList)) ∧
      (Machine.start p .none).Reaches m ∧ m.step = (some (.jumpOutOfBounds .jmp 2), n) := by
  refine ⟨leavingProgram, leaving, leaving, assemble_leavingText, ?_, reaches_leaving, step_leaving⟩
  decide +kernel

end StackLang.Assembly
