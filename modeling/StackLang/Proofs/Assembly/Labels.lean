import StackLang.Proofs.Assembly.Placed
import StackLang.Proofs.Text.Ascii

/-!
# What a label stands for

The instructions of an assembled program are the leading `nop` and one instruction for each line
that holds one, in order; so a label stands for one more than the number of such lines above it.
The indices of a text that fits in memory are integers of the machine, `indexBehind_lines_lt`.
-/

namespace StackLang.Assembly

open Text

/-- Whether a line holds an instruction. -/
def Line.isInstruction (l : Line) : Bool :=
  match l.tokens with
  | .instruction op :: _ => op != .entrypoint
  | _ => false

/-- The index of an instruction or a label behind the given lines. -/
def indexBehind (ls : List Line) : Nat := 1 + (ls.filter Line.isInstruction).length

/-- Some line of the text defines the label, which stands for `index`. -/
def Defines (ls : List Line) (name : String) (index : Nat) : Prop :=
  ∃ above l below, ls = above ++ l :: below ∧ l.tokens = [.name name, .colon] ∧
    index = indexBehind above

/-- The label that an operand names. -/
def Operand.label? : Operand → Option String
  | .label name => some name
  | _ => Option.none

theorem indexBehind_append (ls ls' : List Line) :
    indexBehind (ls ++ ls') = indexBehind ls + (ls'.filter Line.isInstruction).length := by
  simp [indexBehind, Nat.add_assoc]

theorem Defines.append {ls : List Line} {name : String} {index : Nat} (h : Defines ls name index)
    (more : List Line) : Defines (ls ++ more) name index := by
  obtain ⟨above, l, below, rfl, tokens, rfl⟩ := h
  exact ⟨above, l, below ++ more, by simp, tokens, rfl⟩

/-- A label stands for an instruction of the text or for the place behind the last one. -/
theorem Defines.bounds {ls : List Line} {name : String} {index : Nat} (h : Defines ls name index) :
    1 ≤ index ∧ index ≤ indexBehind ls := by
  obtain ⟨above, l, below, rfl, -, rfl⟩ := h
  rw [indexBehind_append]
  exact ⟨Nat.le_add_right 1 _, Nat.le_add_right _ _⟩

/-! ## How many instructions there are -/

theorem toLine_of_nil (number : Nat) (last : Bool) :
    (Row.toLine number last []).isInstruction = false := by
  simp [Row.toLine, Row.tokens, Line.isInstruction]

/-- A line with an instruction has a byte at least, and with the end of its row two. -/
theorem length_instructions_le (number : Nat) (rows : List (List UInt8)) :
    2 * ((linesFrom number rows).filter Line.isInstruction).length ≤
      rows.flatten.length + rows.length := by
  have one (number : Nat) (last : Bool) (row : List UInt8) :
      2 * ([Row.toLine number last row].filter Line.isInstruction).length ≤ row.length + 1 := by
    cases row with
    | nil => simp [toLine_of_nil]
    | cons b row =>
      have atMost := List.length_filter_le Line.isInstruction [Row.toLine number last (b :: row)]
      simp only [List.length_cons, List.length_nil] at atMost ⊢
      omega
  fun_induction linesFrom number rows with
  | case1 => simp
  | case2 number row => simpa using one number true row
  | case3 number row rows _ ih =>
    have first := one number false row
    rw [← List.singleton_append, List.filter_append, List.length_append, List.flatten_cons,
      List.length_append, List.length_cons]
    omega

/-- The indices of a text that fits in memory are integers of the machine. -/
theorem indexBehind_lines_lt {text : String} (size : text.utf8ByteSize < 2 ^ 63) :
    indexBehind (lines (Utf8.encode text.toList)) < 2 ^ 63 := by
  have count := length_instructions_le 1 (rows (Utf8.encode text.toList))
  rw [length_flatten_rows, Utf8.length_encode] at count
  unfold indexBehind lines
  omega

end StackLang.Assembly
