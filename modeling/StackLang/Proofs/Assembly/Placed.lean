import StackLang.Proofs.Assembly.Grammar

/-!
# What an assembled program holds

A line adds at most one instruction, and what it adds is what a statement can say: a literal keeps
only the bits of its type, a register is one that the machine has, and a string is the one at its
index in the table. `Instruction.Placed` relates an instruction to the string table before and
after it, and an assembled program is a `nop` and instructions that are placed one after the other,
`placed_of_assembleBytes`.
-/

namespace StackLang

/-- The least number of bits that hold a literal of the tag. -/
def Tag.width : Tag → Nat
  | .u8 | .char => 8
  | .u16 => 16
  | .u32 => 32
  | _ => 64

/-- A value that a literal can have. -/
structure Value.IsLiteral (v : Value) : Prop where
  typed : v.tag ≠ .reg ∧ v.tag ≠ .top
  narrow : v.word.toNat < 2 ^ v.tag.width

theorem Tag.eight_le_width (t : Tag) : 8 ≤ t.width := by
  cases t <;> decide

namespace Assembly

open Bytecode

/-! ## Chains of steps -/

/-- The members of a list take a state to another one by one. -/
inductive Threads {σ α : Type} (R : σ → α → σ → Prop) : σ → List α → σ → Prop where
  | nil (s : σ) : Threads R s [] s
  | cons {s t u : σ} {a : α} {as : List α} (head : R s a t) (tail : Threads R t as u) :
      Threads R s (a :: as) u

namespace Threads

variable {σ α β : Type} {R : σ → α → σ → Prop}

theorem snoc {s t u : σ} {as : List α} {a : α} (h : Threads R s as t) (last : R t a u) :
    Threads R s (as ++ [a]) u := by
  induction h with
  | nil s => exact .cons last (.nil _)
  | cons head _ ih => exact .cons head (ih last)

/-- Members that are replaced one by one. -/
theorem mapM {ε : Type} {Q : σ → β → σ → Prop} {f : α → Except ε β}
    (step : ∀ s a t b, R s a t → f a = .ok b → Q s b t) {s t : σ} {as : List α} {bs : List β}
    (h : Threads R s as t) (mapped : as.mapM f = .ok bs) :
    Threads Q s bs t ∧ bs.length = as.length := by
  induction h generalizing bs with
  | nil s =>
    cases mapped
    exact ⟨.nil s, rfl⟩
  | cons head _ ih =>
    rw [List.mapM_cons] at mapped
    obtain ⟨b, first, more⟩ := bind_eq_ok_iff.1 mapped
    obtain ⟨rest, others, last⟩ := bind_eq_ok_iff.1 more
    cases last
    obtain ⟨tail, length⟩ := ih others
    exact ⟨.cons (step _ _ _ b head first) tail, by simp [length]⟩

end Threads

end Assembly

/-! ## Instructions -/

namespace Bytecode

open Assembly

/-- An instruction that a statement can place, with the string table before and after it. -/
inductive Instruction.Placed : List (List UInt8) → Instruction → List (List UInt8) → Prop where
  | plain {table : List (List UInt8)} {op : Op} (h : op.hasOperand = false) :
      Placed table { op } table
  | push {table : List (List UInt8)} {v : Value} (h : v.IsLiteral) :
      Placed table { op := .push, value := v.word, tag := v.tag } table
  | pushRegister {table : List (List UInt8)} {r : Nat} (h : r < registerCount) :
      Placed table { op := .push, tag := .reg, register := UInt64.ofNat r } table
  | pushStr {table : List (List UInt8)} (bytes : List UInt8) :
      Placed table { op := .pushStr, value := .ofNat (Draft.intern table bytes).1 }
        (Draft.intern table bytes).2
  | load {table : List (List UInt8)} {r : Nat} {v : Value} (h : r < registerCount)
      (literal : v.IsLiteral) :
      Placed table
        { op := .mov, value := v.word, tag := v.tag, register := UInt64.ofNat r } table
  | loadTop {table : List (List UInt8)} {r : Nat} (h : r < registerCount) :
      Placed table { op := .mov, tag := .top, register := UInt64.ofNat r } table
  | index {table : List (List UInt8)} {op : Op} (n : Word) (h : op.isJump ∨ op = .native) :
      Placed table { op, value := n } table

end Bytecode

namespace Assembly

open Bytecode

/-- A literal has a value that literals can have. -/
theorem LiteralTokens.isLiteral {ts : List Token} {v : Value} (h : LiteralTokens ts v)
    (scanned : ∀ t ∈ ts, t.IsScanned) : v.IsLiteral := by
  cases h with
  | number n => exact ⟨by simp, n.toNat_lt⟩
  | float p => exact ⟨by simp [Value.float], Word.toNat_lt _⟩
  | char c =>
    refine ⟨by simp [Value.char], ?_⟩
    have := c.toNat_lt
    simp only [Value.char, Word.toNat_ofNat, Tag.width]
    omega
  | typedNumber tag n =>
    obtain ⟨-, reg, top⟩ := scanned _ List.mem_cons_self
    have := n.toNat_lt
    refine ⟨⟨fun eq => reg (by rw [← eq]), fun eq => top (by rw [← eq])⟩, ?_⟩
    cases tag
    all_goals
      simp only [Reader.typedNumber, Word.toNat_ofNat, Word.low, Tag.width]
      omega
  | typedChar tag c =>
    obtain ⟨-, reg, top⟩ := scanned _ List.mem_cons_self
    refine ⟨⟨fun eq => reg (by rw [← eq]), fun eq => top (by rw [← eq])⟩, ?_⟩
    have := c.toNat_lt
    have wide := Nat.pow_le_pow_right (n := 2) (by decide) tag.eight_le_width
    simp only [Word.toNat_ofNat]
    omega
  | typedFloat p => exact ⟨by simp [Value.float], Word.toNat_lt _⟩
  | typedDouble p => exact ⟨by simp [Value.double], Word.toNat_lt _⟩

/-! ## The string table -/

/-- A string is at its index in the table that it was put into. -/
theorem Draft.intern_spec (table : List (List UInt8)) (s : List UInt8) :
    table <+: (intern table s).2 ∧ (intern table s).2[(intern table s).1]? = some s := by
  unfold intern
  split
  · rename_i index found
    obtain ⟨lt, same, -⟩ := List.findIdx?_eq_some_iff_getElem.1 found
    exact ⟨List.prefix_rfl, by rw [List.getElem?_eq_getElem lt, eq_of_beq same]⟩
  · exact ⟨List.prefix_append _ _, by simp⟩

theorem isPrefix_of_placed {before after : List (List UInt8)} {i : Instruction}
    (h : i.Placed before after) : before <+: after := by
  cases h with
  | pushStr bytes => exact (Draft.intern_spec before bytes).1
  | _ => exact List.prefix_rfl

theorem Threads.isPrefix {before after : List (List UInt8)} {code : List Instruction}
    (h : Threads Instruction.Placed before code after) : before <+: after := by
  induction h with
  | nil => exact List.prefix_rfl
  | cons head _ ih => exact (isPrefix_of_placed head).trans ih

theorem Threads.length_le {before after : List (List UInt8)} {code : List Instruction}
    (chain : Threads Instruction.Placed before code after) :
    after.length ≤ before.length + code.length := by
  induction chain with
  | nil => simp
  | @cons before next after i code head _ ih =>
    have one : next.length ≤ before.length + 1 := by
      cases head with
      | pushStr bytes =>
        unfold Draft.intern
        split <;> simp
      | _ => exact Nat.le_succ _
    rw [List.length_cons]
    omega

/-! ## Drafts -/

/-- The instruction of a slot is placed, whatever its label turns out to stand for. -/
def Slot.Places (before : List (List UInt8)) (s : Slot) (after : List (List UInt8)) : Prop :=
  ∀ labels i, Draft.resolveSlot labels s = .ok i → i.Placed before after

namespace Draft

theorem places_of_placed {table after : List (List UInt8)} {i : Instruction}
    (h : i.Placed table after) : Slot.Places table ⟨i, none⟩ after := by
  intro labels j resolved
  cases resolved
  exact h

/-- An instruction with its operand fills a slot. -/
theorem exists_slot_add (d : Draft) (line : Nat) {op : Op} {ts : List Token} {o : Operand}
    (h : OperandTokens op ts o) (scanned : ∀ t ∈ ts, t.IsScanned) :
    ∃ slot, (d.add line op o).slots = d.slots.push slot ∧
      slot.Places d.strings (d.add line op o).strings := by
  cases h with
  | none h => exact ⟨_, rfl, places_of_placed (.plain h)⟩
  | register h => exact ⟨_, rfl, places_of_placed (.pushRegister h)⟩
  | literal h => exact ⟨_, rfl, places_of_placed (.push (h.isLiteral scanned))⟩
  | text bytes => exact ⟨_, rfl, places_of_placed (.pushStr bytes)⟩
  | loadTop h => exact ⟨_, rfl, places_of_placed (.loadTop h)⟩
  | load h literal =>
    refine ⟨_, rfl, places_of_placed (.load h (literal.isLiteral fun t mem => ?_))⟩
    exact scanned t (List.mem_cons_of_mem _ mem)
  | index n h => exact ⟨_, rfl, places_of_placed (.index n h)⟩
  | label name h =>
    refine ⟨_, rfl, fun labels i resolved => ?_⟩
    obtain ⟨index, -, last⟩ := bind_eq_ok_iff.1 resolved
    cases last
    exact .index _ (.inl h)

/-- After a `nop` every slot of the draft is placed, and there are at most `n` of them. -/
def Sound (d : Draft) (n : Nat) : Prop :=
  ∃ slots, d.slots.toList = ⟨{ op := .nop }, none⟩ :: slots ∧ slots.length ≤ n ∧
    Threads Slot.Places [] slots d.strings

theorem sound_empty : empty.Sound 0 := ⟨[], rfl, Nat.le_refl 0, .nil _⟩

theorem Sound.mono {d : Draft} {m n : Nat} (sound : d.Sound m) (le : m ≤ n) : d.Sound n := by
  obtain ⟨slots, all, size, placed⟩ := sound
  exact ⟨slots, all, Nat.le_trans size le, placed⟩

theorem Sound.addLine {d d' : Draft} {n : Nat} {l : Line} (sound : d.Sound n)
    (scanned : ∀ t ∈ l.tokens, t.IsScanned) (h : d.addLine l = .ok d') : d'.Sound (n + 1) := by
  have clean : .newline ∉ l.tokens := fun mem => (scanned _ mem).1 rfl
  obtain ⟨s, tokens, -, added⟩ := (addLine_eq_ok_iff clean).1 h
  generalize l.tokens = ts at tokens scanned
  cases tokens with
  | blank =>
    cases added
    exact sound.mono (Nat.le_succ n)
  | label name =>
    unfold addStatement at added
    dsimp only at added
    split at added
    · cases added
    · cases added
      exact sound.mono (Nat.le_succ n)
  | entrypoint name =>
    cases added
    exact sound.mono (Nat.le_succ n)
  | @instruction op ts o ne operand =>
    cases added
    obtain ⟨slots, all, size, placed⟩ := sound
    obtain ⟨slot, pushed, last⟩ := exists_slot_add d l.number operand
      fun t mem => scanned t (List.mem_cons_of_mem _ mem)
    refine ⟨slots ++ [slot], ?_, ?_, placed.snoc last⟩
    · rw [pushed, Array.toList_push, all, List.cons_append]
    · simpa using size

theorem Sound.addLines {d d' : Draft} {n : Nat} {ls : List Line} (sound : d.Sound n)
    (scanned : ∀ l ∈ ls, ∀ t ∈ l.tokens, t.IsScanned) (h : ls.foldlM Draft.addLine d = .ok d') :
    d'.Sound (n + ls.length) := by
  induction ls generalizing d n with
  | nil =>
    cases h
    exact sound
  | cons l ls ih =>
    rw [List.foldlM_cons] at h
    obtain ⟨d1, first, rest⟩ := bind_eq_ok_iff.1 h
    have next := sound.addLine (scanned l List.mem_cons_self) first
    have := ih next (fun m mem => scanned m (List.mem_cons_of_mem _ mem)) rest
    rwa [List.length_cons, Nat.add_comm ls.length 1, ← Nat.add_assoc]

/-- The index at which the program of the draft starts. -/
def start (d : Draft) : Except Error Nat :=
  match d.entry with
  | some (name, line) => resolve d.labels name line
  | none => .ok 0

/-- A finished program is the resolved slots, the start and the strings of the draft. -/
theorem finish_eq_ok_iff {d : Draft} {p : Program} :
    d.finish = .ok p ↔ d.slots.toList.mapM (resolveSlot d.labels) = .ok p.code.toList ∧
      d.start = .ok p.entrypoint ∧ p.strings = d.strings := by
  have steps : d.finish = d.slots.mapM (resolveSlot d.labels) >>= fun code =>
      d.start >>= fun entrypoint => .ok { strings := d.strings, entrypoint, code } := by
    unfold finish start
    cases d.entry <;> rfl
  have list (code : Array Instruction) : d.slots.mapM (resolveSlot d.labels) = .ok code ↔
      d.slots.toList.mapM (resolveSlot d.labels) = .ok code.toList := by
    rw [← Array.toList_mapM]
    cases d.slots.mapM (resolveSlot d.labels) <;> simp [Functor.map, Except.map]
  simp only [steps, bind_eq_ok_iff, list]
  constructor
  · rintro ⟨code, resolved, index, started, same⟩
    cases same
    exact ⟨resolved, started, rfl⟩
  · rintro ⟨resolved, started, strings⟩
    exact ⟨p.code, resolved, p.entrypoint, started, by rw [← strings]⟩

/-- Behind the leading `nop` the code of a finished program is the other slots resolved. -/
theorem exists_code_of_finish {d : Draft} {p : Program} {slots : List Slot}
    (h : d.finish = .ok p) (all : d.slots.toList = ⟨{ op := .nop }, none⟩ :: slots) :
    ∃ code, p.code.toList = { op := .nop } :: code ∧
      slots.mapM (resolveSlot d.labels) = .ok code := by
  obtain ⟨resolved, -, -⟩ := finish_eq_ok_iff.1 h
  rw [all, List.mapM_cons] at resolved
  obtain ⟨nop, first, more⟩ := bind_eq_ok_iff.1 resolved
  obtain ⟨code, rest, last⟩ := bind_eq_ok_iff.1 more
  cases first
  exact ⟨code, (Except.ok.inj last).symm, rest⟩

end Draft

theorem linesFrom_cons {row : List UInt8} {rows : List (List UInt8)} (h : rows ≠ [])
    (number : Nat) :
    linesFrom number (row :: rows) =
      Row.toLine number false row :: linesFrom (number + 1) rows := by
  cases rows with
  | nil => exact absurd rfl h
  | cons next rows => rfl

/-- Each line is a row, numbered by the rows above it. -/
theorem exists_row_of_linesFrom {number : Nat} {rows : List (List UInt8)} {above below : List Line}
    {l : Line} (h : linesFrom number rows = above ++ l :: below) :
    ∃ before row after, rows = before ++ row :: after ∧
      l = Row.toLine (number + before.length) after.isEmpty row := by
  induction above generalizing number rows with
  | nil =>
    match rows with
    | [] => cases h
    | [row] =>
      cases h
      exact ⟨[], row, [], rfl, rfl⟩
    | row :: next :: rows =>
      cases h
      exact ⟨[], row, next :: rows, rfl, rfl⟩
  | cons top above ih =>
    match rows with
    | [] => cases h
    | [row] =>
      have tooFew := (List.cons.inj h).2
      simp at tooFew
    | first :: next :: rows =>
      rw [linesFrom_cons (by simp)] at h
      obtain ⟨before, row, after, split, line⟩ := ih (List.cons.inj h).2
      refine ⟨first :: before, row, after, by rw [split]; rfl, ?_⟩
      rw [line, List.length_cons, Nat.add_assoc, Nat.add_comm 1]

theorem length_linesFrom (number : Nat) (rows : List (List UInt8)) :
    (linesFrom number rows).length = rows.length := by
  fun_induction linesFrom number rows with
  | case1 => rfl
  | case2 => rfl
  | case3 number row rows _ ih => simp [ih]

/-- **An assembled program is a `nop` and instructions that are placed one after the other.** Each
of them stands on a line of its own. -/
theorem placed_of_assembleBytes {bytes : List UInt8} {p : Program}
    (h : assembleBytes bytes = .ok p) :
    ∃ code, p.code.toList = { op := .nop } :: code ∧ code.length ≤ (Text.rows bytes).length ∧
      Threads Instruction.Placed [] code p.strings := by
  obtain ⟨d, collected, finished⟩ := bind_eq_ok_iff.1 h
  obtain ⟨slots, all, size, placed⟩ :=
    Draft.sound_empty.addLines (fun _ mem => isScanned_of_mem_lines mem) collected
  obtain ⟨code, shape, rest⟩ := Draft.exists_code_of_finish finished all
  obtain ⟨-, -, strings⟩ := Draft.finish_eq_ok_iff.1 finished
  obtain ⟨chain, length⟩ := placed.mapM (fun _ _ _ _ places => places _ _) rest
  refine ⟨code, shape, ?_, by rwa [strings]⟩
  rw [length, ← length_linesFrom 1]
  simpa [lines] using size

end Assembly

end StackLang
