import StackLang.Bytecode.Listing
import StackLang.Proofs.Assembly.Placed
import StackLang.Proofs.Assembly.Spelling

/-!
# Listings that are read back

A listed instruction spells the statement that places it: its mnemonic, and an operand that is
read as the word, the tag and the register it was written from. So the listing of an assembled
program without its indices assembles to the same instructions and the same strings,
`assemble_unnumbered_listing`.
-/

namespace StackLang

/-- Operands that a listing shows in full: no numbers of the float formats, and characters that
are ASCII. -/
structure Value.IsPlain (v : Value) : Prop where
  exact : v.tag ≠ .float ∧ v.tag ≠ .double
  ascii : v.tag = .char → v.word.byte.toNat < 128

instance (v : Value) : Decidable v.IsPlain :=
  decidable_of_iff ((v.tag ≠ .float ∧ v.tag ≠ .double) ∧ (v.tag = .char → v.word.byte.toNat < 128))
    ⟨fun ⟨exact, ascii⟩ => ⟨exact, ascii⟩, fun ⟨exact, ascii⟩ => ⟨exact, ascii⟩⟩

end StackLang

namespace StackLang.Assembly

open Bytecode Numeric Row Text

/-! ## Words -/

theorem Row.IsWordText.of_mnemonic (op : Op) : IsWordText op.mnemonic.toList := by
  apply IsWordText.of_check
  cases op <;> decide

theorem spells_mnemonic (op : Op) : Spells op.mnemonic.toList (.instruction op) := by
  have read : Token.ofWord op.mnemonic = .instruction op := by
    rw [Token.ofWord, Op.ofMnemonic?_mnemonic]
  have := (IsWordText.of_mnemonic op).spells
  rwa [String.ofList_toList, read] at this

theorem spells_tag {tag : Tag} (h : tag ≠ .reg ∧ tag ≠ .top) :
    Spells tag.name.toList (.type tag) := by
  have word : IsWordText tag.name.toList := by
    apply IsWordText.of_check
    cases tag <;> decide
  have read : Token.ofWord tag.name = .type tag := by
    cases tag <;> first | decide | simp at h
  have := word.spells
  rwa [String.ofList_toList, read] at this

theorem spells_top : Spells "top".toList .top := by
  have word : IsWordText "top".toList := IsWordText.of_check (by decide)
  exact word.spells

theorem toList_toString_nat (n : Nat) : (toString n).toList = Nat.toDigits 10 n :=
  String.toList_ofList

theorem toList_hex (n : Nat) : (Numeral.hex n).toList = '0' :: 'x' :: Nat.toDigits 16 n := by
  rw [Numeral.hex, String.toList_append, String.toList_ofList, String.toList_ofList]
  rfl

theorem toList_register {r : Nat} (h : r < registerCount) :
    (s!"r{UInt64.ofNat r}").toList = 'r' :: Nat.toDigits 10 r := by
  have small : (UInt64.ofNat r).toNat = r :=
    UInt64.toNat_ofNat_of_lt' (by simp only [registerCount] at h; simp only [UInt64.size]; omega)
  have digits : (toString (UInt64.ofNat r)).toList = Nat.toDigits 10 r := by
    rw [← toList_toString_nat r]
    conv => rhs; rw [← small]
    rfl
  rw [String.toList_append, digits]
  rfl

theorem spells_register {r : Nat} (h : r < registerCount) :
    Spells ('r' :: Nat.toDigits 10 r) (.register r) := by
  have digits := alphanum_toDigits 10 (by decide) (by decide) r
  have word : IsWordText ('r' :: Nat.toDigits 10 r) := by
    refine ⟨⟨_, _, rfl, by decide⟩, fun c mem => ?_⟩
    rcases List.mem_cons.1 mem with rfl | mem
    · decide
    · exact ⟨(digits c mem).1, .inl (digits c mem).2⟩
  have each : ∀ k : Fin 16,
      Token.ofWord (String.ofList ('r' :: Nat.toDigits 10 k)) = .register k := by decide
  have := word.spells
  rwa [each ⟨r, h⟩] at this

/-! ## Literals -/

theorem toNat_toInt_of_nonneg {w : Word} (h : 0 ≤ w.toInt) : w.toInt.toNat = w.toNat := by
  have range := w.toNat_lt
  revert h
  unfold Word.toInt
  split <;> omega

theorem toNat_neg_toInt_le (w : Word) : (-w.toInt).toNat < 2 ^ 64 := by
  have range := w.toNat_lt
  unfold Word.toInt
  split <;> omega

theorem spells_int (w : Word) : Spells (toString w.toInt).toList (.number w) := by
  change Spells w.toInt.repr.toList _
  rw [Int.repr_eq_if]
  split
  · rename_i nonneg
    change Spells (toString w.toInt.toNat).toList _
    rw [toList_toString_nat, toNat_toInt_of_nonneg nonneg]
    have := spells_decimal _ w.toNat_lt
    rwa [Word.ofNat_toNat] at this
  · rename_i negative
    change Spells ("-" ++ toString (-w.toInt).toNat).toList _
    rw [String.toList_append, toList_toString_nat]
    have := spells_minus _ (toNat_neg_toInt_le w)
    rwa [Int.toNat_of_nonneg (by omega), Int.neg_neg, Word.ofInt_toInt] at this

theorem low_of_lt {w : Word} {width : Nat} (h : w.toNat < 2 ^ width) : w.low width = w.toNat :=
  Nat.mod_eq_of_lt h

/-- A type word changes no number of its width. -/
theorem typedNumber_of_narrow {tag : Tag} {w : Word} (narrow : w.toNat < 2 ^ tag.width)
    (exact : tag ≠ .float ∧ tag ≠ .double) : Reader.typedNumber tag w = w := by
  cases tag with
  | float => exact absurd rfl exact.1
  | double => exact absurd rfl exact.2
  | u8 | u16 | u32 | char => exact (congrArg Word.ofNat (low_of_lt narrow)).trans w.ofNat_toNat
  | int | u64 | ptr | reg | top => rfl

/-- A literal with its type word in front. -/
theorem exists_typed {tag : Tag} {w : Word} (typed : tag ≠ .reg ∧ tag ≠ .top)
    (narrow : w.toNat < 2 ^ tag.width) (exact : tag ≠ .float ∧ tag ≠ .double)
    {text : List Char} (number : Spells text (.number w)) :
    ∃ ts, SpellsAll (tag.name.toList ++ ' ' :: text) ts ∧ LiteralTokens ts ⟨w, tag⟩ := by
  have literal := LiteralTokens.typedNumber tag w
  rw [typedNumber_of_narrow narrow exact] at literal
  exact ⟨_, (spells_tag typed).cons number.all, literal⟩

theorem char_byte {w : Word} (narrow : w.toNat < 2 ^ 8) : Value.char w.byte = ⟨w, .char⟩ := by
  have byte : w.byte.toNat = w.toNat := UInt8.toNat_ofNat_of_lt' narrow
  rw [Value.char, byte, Word.ofNat_toNat]

/-- The operand of a literal is listed as tokens of the literal. -/
theorem exists_literalTokens {i : Instruction} (literal : Value.IsLiteral ⟨i.value, i.tag⟩)
    (plain : Value.IsPlain ⟨i.value, i.tag⟩) :
    ∃ ts, SpellsAll i.renderOperand.toList ts ∧ LiteralTokens ts ⟨i.value, i.tag⟩ := by
  obtain ⟨op, w, tag, r⟩ := i
  obtain ⟨typed, narrow⟩ := literal
  obtain ⟨exact, ascii⟩ := plain
  dsimp only at typed narrow exact ascii
  have decimal := spells_decimal _ w.toNat_lt
  have hex := spells_hex _ w.toNat_lt
  rw [Word.ofNat_toNat] at decimal hex
  have ofText {text : String} {chars : List Char} (shown : text.toList = chars)
      (number : Spells chars (.number w)) :
      ∃ ts, SpellsAll (tag.name ++ " " ++ text).toList ts ∧ LiteralTokens ts ⟨w, tag⟩ := by
    have := exists_typed typed narrow exact number
    rw [String.toList_append, String.toList_append, shown, List.append_assoc]
    exact this
  cases tag with
  | int => exact ⟨_, (spells_int w).all, .number w⟩
  | u8 | u16 | u32 =>
    refine ofText ?_ decimal
    rw [Word.render, toList_toString_nat]
    exact congrArg (Nat.toDigits 10) (low_of_lt narrow)
  | u64 => exact ofText (toList_toString_nat _) decimal
  | float => exact absurd rfl exact.1
  | double => exact absurd rfl exact.2
  | char =>
    have literal := LiteralTokens.char w.byte
    rw [char_byte narrow] at literal
    refine ⟨_, ?_, literal⟩
    have shown : ("'" ++ Text.Escape.spellAll [w.byte] ++ "'").toList =
        '\'' :: (Text.Escape.spell w.byte ++ ['\'']) := by
      rw [String.toList_append, String.toList_append, Text.Escape.spellAll,
        List.flatMap_singleton, String.toList_ofList, String.toList_ofList]
      rfl
    have := (spells_char (ascii rfl)).all
    rwa [← shown] at this
  | ptr => exact ofText (toList_hex _) hex
  | reg => exact absurd rfl typed.1
  | top => exact absurd rfl typed.2

/-! ## Instructions -/

theorem renderString_of_getElem? {table : List (List UInt8)} {n : Nat} {bytes : List UInt8}
    {i : Instruction} (value : i.value = .ofNat n) (small : n < 2 ^ 63)
    (found : table[n]? = some bytes) :
    (i.renderString table).toList = '"' :: (bytes.flatMap Escape.spell ++ ['"']) := by
  unfold Instruction.renderString
  dsimp only
  rw [value, Word.toInt_ofNat small, if_pos (by omega), Int.toNat_natCast, found]
  dsimp only
  rw [String.toList_append, String.toList_append, Escape.spellAll, String.toList_ofList,
    String.toList_ofList]
  rfl

/-- The mnemonic and the operand of an instruction. -/
theorem spells_operand {op : Op} {text : String} {ts : List Token} (h : SpellsAll text.toList ts) :
    SpellsAll (op.mnemonic ++ " " ++ text).toList (.instruction op :: ts) := by
  rw [String.toList_append, String.toList_append, List.append_assoc]
  exact (spells_mnemonic op).cons h

theorem spells_loaded {r : Nat} (lt : r < registerCount) {text : String} {ts : List Token}
    (h : SpellsAll text.toList ts) :
    SpellsAll (s!"r{UInt64.ofNat r} " ++ text).toList (.register r :: ts) := by
  have := (spells_register lt).cons h
  rw [← toList_register lt] at this
  rw [String.toList_append, String.toList_append, List.append_assoc]
  exact this

/-- A placed instruction is listed as the statement that places it. -/
theorem exists_statement {table before after : List (List UInt8)} {i : Instruction}
    (placed : i.Placed before after) (known : after <+: table) (size : table.length ≤ 2 ^ 63)
    (plain : i.op = .push ∨ i.op = .mov → Value.IsPlain ⟨i.value, i.tag⟩)
    (ascii : ∀ s ∈ table, ∀ b ∈ s, b.toNat < 128) :
    ∃ ts o, SpellsAll (i.render table).toList ts ∧ StatementTokens ts (.instruction i.op o) ∧
      ∀ (d : Draft) (line : Nat), d.strings = before →
        d.add line i.op o = Draft.push { d with strings := after } i none := by
  cases placed with
  | @plain op h =>
    refine ⟨[.instruction op], .none, ?_, .instruction ?_ (.none h), ?_⟩
    · have shown : ({ op } : Instruction).render table = op.mnemonic := by
        simp [Instruction.render, h]
      rw [shown]
      exact (spells_mnemonic op).all
    · rintro rfl
      cases h
    · rintro d line rfl
      rfl
  | @push v h =>
    obtain ⟨ts, spelled, literal⟩ :=
      exists_literalTokens (i := { op := .push, value := v.word, tag := v.tag }) h
        (plain (.inl rfl))
    refine ⟨_, _, spells_operand spelled, .instruction (by simp) (.literal literal), ?_⟩
    rintro d line rfl
    rfl
  | @pushRegister r h =>
    have spelled := (spells_register h).all
    rw [← toList_register h] at spelled
    refine ⟨_, _, spells_operand spelled, .instruction (by simp) (.register h), ?_⟩
    rintro d line rfl
    rfl
  | pushStr bytes =>
    obtain ⟨-, inside⟩ := Draft.intern_spec before bytes
    obtain ⟨index, same⟩ := List.getElem?_eq_some_iff.1 inside
    have found := List.prefix_iff_getElem?.1 known _ index
    rw [same] at found
    have lt := (List.getElem?_eq_some_iff.1 found).1
    have spelled := (spells_text (ascii bytes (List.mem_of_getElem? found))).all
    rw [← renderString_of_getElem? (i := { op := .pushStr, value := .ofNat _ }) rfl
      (by omega) found] at spelled
    refine ⟨_, _, spells_operand spelled, .instruction (by simp) (.text bytes), ?_⟩
    rintro d line rfl
    rfl
  | @load r v h literal =>
    obtain ⟨ts, spelled, literal⟩ := exists_literalTokens
      (i := { op := .mov, value := v.word, tag := v.tag, register := UInt64.ofNat r }) literal
      (plain (.inr rfl))
    refine ⟨_, _, spells_operand (spells_loaded h spelled),
      .instruction (by simp) (.load h literal), ?_⟩
    rintro d line rfl
    rfl
  | loadTop h =>
    refine ⟨_, _, spells_operand (spells_loaded h spells_top.all),
      .instruction (by simp) (.loadTop h), ?_⟩
    rintro d line rfl
    rfl
  | @index op n h =>
    have shown : ({ op, value := n } : Instruction).render table =
        op.mnemonic ++ " " ++ toString n.toInt := by
      rcases h with h | rfl
      · cases op <;> first | rfl | cases h
      · rfl
    refine ⟨_, _, ?_, .instruction ?_ (.index n h), ?_⟩
    · rw [shown]
      exact spells_operand (spells_int n).all
    · rintro rfl
      simp [Op.isJump] at h
    · rintro d line rfl
      rfl

/-! ## Lines -/

/-- A spelled row is the line of its tokens. -/
theorem toLine_of_spells {text : List Char} {ts : List Token} (h : SpellsAll text ts)
    (number : Nat) : Row.toLine number false (Utf8.encode text) = ⟨number, ts, .newline⟩ := by
  rw [Utf8.encode_ascii fun c mem => (h.clean c mem).1, Row.toLine]
  simp [h.read]

theorem newline_not_mem_of_spells {text : List Char} {ts : List Token} (h : SpellsAll text ts) :
    .newline ∉ ts := by
  intro mem
  have scanned : .newline ∈ (Row.tokens '\n' (text.map toByte)).1 := by rwa [h.read]
  exact (Row.isScanned_of_mem_tokens scanned).1 rfl

/-- The programs whose listing shows every operand in full: every pushed or loaded one is plain,
and every string is ASCII. -/
structure Shown (table : List (List UInt8)) (code : List Instruction) : Prop where
  operands : ∀ i ∈ code, i.op = .push ∨ i.op = .mov → Value.IsPlain ⟨i.value, i.tag⟩
  strings : ∀ s ∈ table, ∀ b ∈ s, b.toNat < 128
  size : table.length ≤ 2 ^ 63

/-- The rows of a listing without indices, the last one empty. -/
def listedRows (table : List (List UInt8)) (code : List Instruction) : List (List Char) :=
  code.map (fun i => (i.render table).toList) ++ [[]]

/-- A blank line at the end adds nothing. -/
theorem addLine_last (d : Draft) (number : Nat) :
    d.addLine (Row.toLine number true []) = .ok d := by
  have empty : Row.toLine number true [] = ⟨number, [], .endOfText⟩ := by
    simp [Row.toLine, Row.tokens]
  rw [empty, Draft.addLine_eq_ok_iff (by simp)]
  exact ⟨.blank, .blank, by simp [Line.IsWhole], rfl⟩

/-- Reading the rows of a listing places the listed instructions again. -/
theorem foldlM_listedRows {table before after : List (List UInt8)} {code : List Instruction}
    (chain : Threads Instruction.Placed before code after) (known : after <+: table)
    (shown : Shown table code) (d : Draft) (strings : d.strings = before) (number : Nat) :
    (linesFrom number ((listedRows table code).map Utf8.encode)).foldlM Draft.addLine d =
      .ok { d with
        strings := after
        slots := d.slots ++ (code.map fun i => (⟨i, none⟩ : Slot)).toArray } := by
  -- The table of the draft is the one before the instruction, so a string is put at the index that
  -- it was listed from.
  induction chain generalizing d number with
  | nil table =>
    change [Row.toLine number true []].foldlM Draft.addLine d = _
    rw [List.foldlM_cons, addLine_last]
    subst strings
    simp
  | @cons before next after i code head tail ih =>
    obtain ⟨ts, o, spelled, statement, added⟩ :=
      exists_statement head (tail.isPrefix.trans known) shown.size
        (shown.operands i List.mem_cons_self) shown.strings
    have read : d.addLine ⟨number, ts, .newline⟩ =
        .ok (Draft.push { d with strings := next } i none) := by
      rw [Draft.addLine_eq_ok_iff (newline_not_mem_of_spells spelled)]
      refine ⟨_, statement, by simp [Line.IsWhole], ?_⟩
      exact congrArg Except.ok (added d number strings)
    have rest : Shown table code :=
      ⟨fun j mem => shown.operands j (List.mem_cons_of_mem _ mem), shown.strings, shown.size⟩
    rw [listedRows, List.map_cons, List.cons_append, List.map_cons,
      linesFrom_cons (by simp), List.foldlM_cons, toLine_of_spells spelled, read, ok_bind]
    have slots : d.slots.push ⟨i, none⟩ ++ (code.map fun j => (⟨j, none⟩ : Slot)).toArray =
        d.slots ++ ((i :: code).map fun j => (⟨j, none⟩ : Slot)).toArray := by
      simp
    rw [← listedRows, ih known rest _ rfl, ← slots]
    rfl

/-- A draft without labels is finished with the instructions of its slots. -/
theorem finish_of_listed (strings : List (List UInt8)) (code : List Instruction) :
    Draft.finish ⟨strings, (code.map fun i => (⟨i, none⟩ : Slot)).toArray, [], none⟩ =
      .ok ⟨strings, 0, code.toArray⟩ := by
  have resolved : (code.map fun i => (⟨i, none⟩ : Slot)).mapM (Draft.resolveSlot []) =
      .ok code := by
    induction code with
    | nil => rfl
    | cons i code ih =>
      rw [List.map_cons, List.mapM_cons, ih]
      rfl
  unfold Draft.finish
  rw [Array.mapM_eq_mapM_toList, resolved]
  rfl

/-- The instructions of a listing are assembled as they are listed. -/
theorem assembleBytes_listed {p : Program} {code : List Instruction} {bytes : List UInt8}
    (all : p.code.toList = { op := .nop } :: code)
    (chain : Threads Instruction.Placed [] code p.strings) (shown : Shown p.strings code)
    (rows : Text.rows bytes = (listedRows p.strings code).map Utf8.encode) :
    assembleBytes bytes = .ok { p with entrypoint := 0 } := by
  have collected := foldlM_listedRows chain List.prefix_rfl shown .empty rfl 1
  refine bind_eq_ok_iff.2 ⟨_, by rw [lines, rows]; exact collected, ?_⟩
  have slots : Draft.empty.slots ++ (code.map fun i => (⟨i, none⟩ : Slot)).toArray =
      (p.code.toList.map fun i => (⟨i, none⟩ : Slot)).toArray := by
    rw [all]
    simp [Draft.empty]
  rw [slots]
  exact finish_of_listed p.strings p.code.toList

/-! ## Listings -/

/-- A line of a listing without its index. -/
def withoutIndex (line : List Char) : List Char := (line.dropWhile (· != ':')).drop 2

/-- A listing without the indices in front of its lines. -/
def unnumbered (listing : String) : String :=
  String.ofList (['\n'].intercalate ((listing.toList.splitOn '\n').map withoutIndex))

theorem withoutIndex_numbered (index : Nat) (text : List Char) :
    withoutIndex (Nat.toDigits 10 index ++ ':' :: ' ' :: text) = text := by
  have before : ∀ c ∈ Nat.toDigits 10 index, (c != ':') = true := by
    intro c mem
    rw [bne_iff_ne]
    rintro rfl
    exact absurd (Nat.isDigit_of_mem_toDigits (by decide) (by decide) mem) (by decide)
  rw [withoutIndex, List.dropWhile_append_of_pos before]
  rfl

example : unnumbered "1: push 58\n2: halt\n" = "push 58\nhalt\n" := by decide

/-- An instruction of a listing behind its index. -/
def numbered (table : List (List UInt8)) (entry : Instruction × Nat) : List Char :=
  Nat.toDigits 10 entry.2 ++ ':' :: ' ' :: (entry.1.render table).toList

theorem toList_listing (p : Program) :
    p.listing.toList = ['\n'].intercalate
      ((p.code.toList.zipIdx.drop p.entrypoint).map (numbered p.strings) ++ [[]]) := by
  rw [← flatMap_eq_intercalate, Program.listing, String.toList_join, List.flatMap_map,
    List.flatMap_map]
  congr 1
  funext entry
  simp only [numbered, String.toList_append, toList_toString_nat, List.append_assoc]
  rfl

theorem newline_not_mem_numbered {table : List (List UInt8)} {i : Instruction} {index : Nat}
    (clean : '\n' ∉ (i.render table).toList) : '\n' ∉ numbered table (i, index) := by
  have digits : '\n' ∉ Nat.toDigits 10 index := fun mem =>
    absurd (Nat.isDigit_of_mem_toDigits (by decide) (by decide) mem) (by decide)
  simp [numbered, digits, clean]

theorem toList_unnumbered {p : Program} {code : List Instruction}
    (all : p.code.toList = { op := .nop } :: code)
    (clean : ∀ i ∈ code, '\n' ∉ (i.render p.strings).toList) :
    (unnumbered { p with entrypoint := 1 }.listing).toList =
      ['\n'].intercalate (listedRows p.strings code) := by
  have rows : ∀ row ∈ (code.zipIdx 1).map (numbered p.strings) ++ [[]], '\n' ∉ row := by
    intro row mem
    rcases List.mem_append.1 mem with mem | mem
    · obtain ⟨⟨i, index⟩, inside, rfl⟩ := List.mem_map.1 mem
      exact newline_not_mem_numbered (clean i (List.fst_mem_of_mem_zipIdx inside))
    · rw [List.mem_singleton.1 mem]
      exact List.not_mem_nil
  have texts : (code.zipIdx 1).map (withoutIndex ∘ numbered p.strings) =
      code.map fun i => (i.render p.strings).toList := by
    have each : withoutIndex ∘ numbered p.strings =
        (fun i : Instruction => (i.render p.strings).toList) ∘ Prod.fst :=
      funext fun entry => withoutIndex_numbered _ _
    rw [each, ← List.map_map, List.zipIdx_map_fst]
  rw [unnumbered, String.toList_ofList, toList_listing]
  dsimp only
  rw [all, List.zipIdx_cons, List.drop_succ_cons, List.drop_zero,
    List.splitOn_intercalate _ rows (by simp), List.map_append, List.map_map, texts]
  rfl

theorem exists_spelled {table before after : List (List UInt8)} {code : List Instruction}
    (chain : Threads Instruction.Placed before code after) (known : after <+: table)
    (shown : Shown table code) : ∀ i ∈ code, ∃ ts, SpellsAll (i.render table).toList ts := by
  induction chain with
  | nil => simp
  | @cons before next after i code head tail ih =>
    intro j mem
    rcases List.mem_cons.1 mem with rfl | mem
    · obtain ⟨ts, o, spelled, -⟩ :=
        exists_statement head (tail.isPrefix.trans known) shown.size
          (shown.operands j List.mem_cons_self) shown.strings
      exact ⟨ts, spelled⟩
    · exact ih known ⟨fun k inside => shown.operands k (List.mem_cons_of_mem _ inside),
        shown.strings, shown.size⟩ j mem

/-- **The listing of an assembled program reads back.** Without its indices it is a text of the
same instructions and strings. A text in memory has fewer than `2 ^ 63` bytes, so an index of the
string table is never listed as a negative number. -/
theorem assemble_unnumbered_listing {text : String} {p : Program} (h : assemble text = .ok p)
    (size : text.utf8ByteSize < 2 ^ 63)
    (operands : ∀ i ∈ p.code, i.op = .push ∨ i.op = .mov → Value.IsPlain ⟨i.value, i.tag⟩)
    (strings : ∀ s ∈ p.strings, ∀ b ∈ s, b.toNat < 128) :
    assemble (unnumbered { p with entrypoint := 1 }.listing) = .ok { p with entrypoint := 0 } := by
  obtain ⟨code, all, count, chain⟩ := placed_of_assembleBytes h
  have shown : Shown p.strings code := by
    refine ⟨fun i mem => operands i ?_, strings, ?_⟩
    · rw [Array.mem_def, all]
      exact List.mem_cons_of_mem _ mem
    · have table := chain.length_le
      have rows := length_rows_le (Utf8.encode text.toList)
      rw [Utf8.length_encode] at rows
      rw [List.length_nil] at table
      omega
  have clean : ∀ i ∈ code, ∀ c ∈ (i.render p.strings).toList, IsAscii c ∧ c ≠ '\n' := by
    intro i mem
    obtain ⟨ts, spelled⟩ := exists_spelled chain List.prefix_rfl shown i mem
    exact spelled.clean
  refine assembleBytes_listed all chain shown ?_
  rw [toList_unnumbered all fun i mem inside => (clean i mem _ inside).2 rfl]
  refine rows_encode_intercalate (by simp [listedRows]) fun row mem => ?_
  rcases List.mem_append.1 mem with mem | mem
  · obtain ⟨i, inside, rfl⟩ := List.mem_map.1 mem
    exact clean i inside
  · rw [List.mem_singleton.1 mem]
    exact fun _ inside => absurd inside List.not_mem_nil

/-- A loop with an operand of every shape that a listing shows. -/
def shownText : String :=
  "loop: ; once more\n  push_str \"a;\\n\"\n  mov r3 u8 7\n  mov r4 top\n  push -5\n" ++
    "  push '\\''\n  push ptr 0x2F\n  push r3\n  call loop\n"

/-- The program of `shownText`. -/
def shownProgram : Program where
  strings := [[0x61, 0x3B, 0x0A]]
  code := #[{ op := .nop }, { op := .pushStr },
    { op := .mov, value := .ofNat 7, tag := .u8, register := 3 },
    { op := .mov, tag := .top, register := 4 }, { op := .push, value := .ofInt (-5) },
    { op := .push, value := .ofNat 0x27, tag := .char },
    { op := .push, value := .ofNat 0x2F, tag := .ptr }, { op := .push, tag := .reg, register := 3 },
    { op := .call, value := .ofNat 1 }]

theorem assemble_unnumbered_listing_loop :
    assemble shownText = .ok shownProgram ∧ shownText.utf8ByteSize < 2 ^ 63 ∧
      assemble (unnumbered { shownProgram with entrypoint := 1 }.listing) =
        .ok { shownProgram with entrypoint := 0 } := by
  have assembled : assemble shownText = .ok shownProgram := by decide +kernel
  have size : shownText.utf8ByteSize < 2 ^ 63 := by decide +kernel
  exact ⟨assembled, size,
    assemble_unnumbered_listing assembled size (by decide +kernel) (by decide +kernel)⟩

end StackLang.Assembly
