import StackLang.Proofs.Assembly.References

/-!
# The line that an error names

An error names the line of the statement that is rejected, or whose label is unknown, with one
exception: where a line feed stands in the place of an operand, the line has been counted on
before the operand is missed, and the error names the next line. `Line.lacksOperand` is that case,
and `line_of_assemble` the statement for all texts.
-/

namespace StackLang.Assembly

open Bytecode Text

/-- The line ends with a line feed where an operand has to follow, or what a register is loaded
with. -/
def Line.lacksOperand (l : Line) : Bool :=
  l.ending == .newline &&
    match l.tokens with
    | [.instruction op] => op.hasOperand && op != .entrypoint
    | [.instruction .mov, .register r] => r < registerCount
    | _ => false

theorem Line.lacksOperand_iff {l : Line} :
    l.lacksOperand ↔ l.ending = .newline ∧
      ((∃ op, l.tokens = [.instruction op] ∧ op.hasOperand ∧ op ≠ .entrypoint) ∨
        ∃ r, l.tokens = [.instruction .mov, .register r] ∧ r < registerCount) := by
  unfold lacksOperand
  rw [Bool.and_eq_true, beq_iff_eq]
  refine and_congr_right fun _ => ?_
  split <;> simp_all

/-- The line ends here, with a line feed. -/
def Line.IsDone (l : Line) : Prop := l.tokens = [] ∧ l.ending = .newline

namespace Reader

variable {α β : Type} {l l' : Line} {n : Nat}

/-- If the reader fails on `l`, the error names line `n`. -/
def FailsAt (n : Nat) (x : Reader α) (l : Line) : Prop := ∀ e, x.run l = .error e → e.line = n

theorem failsAt_pure (a : α) : FailsAt n (pure a) l := nofun

theorem failsAt_fail (cause : Cause) : FailsAt n (fail n cause : Reader α) l := by
  rintro e ⟨⟩
  rfl

theorem failsAt_reject (cause : Cause) : FailsAt l.number (reject cause : Reader α) l := by
  rintro e ⟨⟩
  rfl

theorem failsAt_bind {x : Reader α} {f : α → Reader β} (first : FailsAt n x l)
    (rest : ∀ a l', x.run l = .ok (a, l') → FailsAt n (f a) l') : FailsAt n (x >>= f) l := by
  intro e h
  rw [StateT.run_bind] at h
  cases run : x.run l with
  | error e' =>
    rw [run] at h
    cases h
    exact first _ run
  | ok result =>
    rw [run] at h
    exact rest _ _ run e h

theorem failsAt_lineNumber_bind {f : Nat → Reader β} (rest : FailsAt n (f l.number) l) :
    FailsAt n (lineNumber >>= f) l := rest

theorem failsAt_next : FailsAt l.number next l := by
  obtain ⟨number, tokens, ending⟩ := l
  intro e h
  cases tokens with
  | cons t rest => cases h
  | nil =>
    cases ending <;> cases h
    rfl

theorem failsAt_register (r : Nat) : FailsAt l.number (register r) l := by
  unfold register
  split
  · exact failsAt_reject _
  · exact failsAt_pure _

/-- Reading on changes the number of the line only at its end. -/
theorem number_of_next {t : Option Token} (h : next.run l = .ok (t, l')) (more : ¬ l.IsDone) :
    l'.number = l.number := by
  obtain ⟨number, tokens, ending⟩ := l
  cases tokens with
  | cons t rest =>
    cases h
    rfl
  | nil =>
    cases ending with
    | newline => exact absurd ⟨rfl, rfl⟩ more
    | endOfText =>
      cases h
      rfl
    | fault cause => cases h

/-- A literal is rejected on the line that its first token was read on. -/
theorem failsAt_literal (first : Option Token) : FailsAt l.number (literal first) l := by
  unfold literal
  refine failsAt_lineNumber_bind ?_
  split
  · refine failsAt_bind failsAt_next fun found l' _ => ?_
    split
    iterate 4 exact failsAt_pure _
    exact failsAt_fail _
  iterate 3 exact failsAt_pure _
  exact failsAt_fail _

/-- An operand that is not cut off by the end of the line is rejected on its line. -/
theorem failsAt_operand {op : Op} (more : op.hasOperand → ¬ l.IsDone)
    (loaded : op = .mov → ∀ r l', r < registerCount → next.run l = .ok (some (.register r), l') →
      ¬ l'.IsDone) :
    FailsAt l.number (operand op) l := by
  -- Only the end of a line counts the number on, so it is the same behind the first token.
  have first {β : Type} {f : Option Token → Reader β} (has : op.hasOperand)
      (rest : ∀ t l', next.run l = .ok (t, l') → FailsAt l'.number (f t) l') :
      FailsAt l.number (next >>= f) l := by
    refine failsAt_bind failsAt_next fun t l' read => ?_
    rw [← number_of_next read (more has)]
    exact rest t l' read
  by_cases jump : op.isJump
  · rw [operand_jump jump]
    have has : op.hasOperand := by
      cases op <;> first | rfl | cases jump
    refine first has fun t l' read => ?_
    split
    iterate 2 exact failsAt_pure _
    exact failsAt_reject _
  unfold operand
  split
  · refine first rfl fun t l' read => ?_
    split
    · exact failsAt_bind (failsAt_register _) fun _ _ _ => failsAt_pure _
    · exact failsAt_bind (failsAt_literal _) fun _ _ _ => failsAt_pure _
  · refine first rfl fun t l' read => ?_
    split
    · exact failsAt_pure _
    · exact failsAt_reject _
  · refine first rfl fun t l' read => ?_
    split
    · refine failsAt_bind (failsAt_register _) fun r l'' kept => ?_
      obtain ⟨lt, rfl, rfl⟩ := run_register_eq_ok kept
      refine failsAt_bind failsAt_next fun t l'' second => ?_
      rw [← number_of_next second (loaded rfl _ _ lt read)]
      split
      · exact failsAt_pure _
      · exact failsAt_bind (failsAt_literal _) fun _ _ _ => failsAt_pure _
    · exact failsAt_reject _
  iterate 4 exact absurd rfl jump
  · refine first rfl fun t l' read => ?_
    split
    · exact failsAt_pure _
    · exact failsAt_reject _
  · exact failsAt_pure _

/-- An operand that is cut off by the end of the line is missed on the next line. -/
theorem failsAt_operand_of_lacks {op : Op} {ts : List Token} {number : Nat} {ending : Ending}
    (lacks : Line.lacksOperand ⟨number, .instruction op :: ts, ending⟩) :
    FailsAt (number + 1) (operand op) ⟨number, ts, ending⟩ := by
  obtain ⟨rfl, ⟨op, tokens, has, ne⟩ | ⟨r, tokens, lt⟩⟩ := Line.lacksOperand_iff.1 lacks
  · cases tokens
    intro e h
    cases op <;> first | exact absurd rfl ne | cases has; done | cases h; rfl
  · cases tokens
    have missed : (operand .mov).run ⟨number, [.register r], .newline⟩ =
        .error ⟨number + 1, .expectedLiteral (some .newline)⟩ := by
      refine (run_bind_of_ok (run_next_before (.register r) [] ⟨number, [], .newline⟩)).trans ?_
      exact run_bind_of_ok (run_register lt _)
    intro e h
    rw [missed] at h
    cases h
    rfl

theorem failsAt_next_bind {f : Option Token → Reader β} {t : Token}
    (rest : FailsAt n (f (some t)) l) : FailsAt n (next >>= f) (l.before [t]) := rest

theorem not_isDone_of_lacks {op : Op} {number : Nat} {ts : List Token} {ending : Ending}
    (ne : op ≠ .entrypoint)
    (complete : ¬ Line.lacksOperand ⟨number, .instruction op :: ts, ending⟩)
    (has : op.hasOperand) : ¬ Line.IsDone ⟨number, ts, ending⟩ := by
  rintro ⟨rfl, rfl⟩
  exact complete (Line.lacksOperand_iff.2 ⟨rfl, .inl ⟨op, rfl, has, ne⟩⟩)

theorem not_isDone_of_loaded {number r : Nat} {ts : List Token} {ending : Ending} {l : Line}
    (complete : ¬ Line.lacksOperand ⟨number, .instruction .mov :: ts, ending⟩)
    (lt : r < registerCount) (read : next.run ⟨number, ts, ending⟩ = .ok (some (.register r), l)) :
    ¬ l.IsDone := by
  obtain ⟨l_number, l_tokens, l_ending⟩ := l
  cases eq_before_of_run_next read (by simp)
  rintro ⟨rfl, rfl⟩
  exact complete (Line.lacksOperand_iff.2 ⟨rfl, .inr ⟨r, rfl, lt⟩⟩)

/-- A statement with its operand is rejected on its line. -/
theorem failsAt_statement (clean : .newline ∉ l.tokens) (complete : ¬ l.lacksOperand) :
    FailsAt l.number statement l := by
  obtain ⟨number, tokens, ending⟩ := l
  cases tokens with
  | nil =>
    intro e h
    cases ending <;> cases h
    rfl
  | cons first ts =>
    refine failsAt_next_bind (l := ⟨number, ts, ending⟩) ?_
    split
    · rename_i none
      cases none
    · rename_i newline
      cases newline
      exact absurd List.mem_cons_self clean
    · rename_i token same
      cases same
      refine failsAt_lineNumber_bind ?_
      split
      · refine failsAt_bind failsAt_next fun found l' _ => ?_
        split
        · exact failsAt_pure _
        · exact failsAt_fail _
      · rename_i op ne
        refine failsAt_bind ?_ fun _ _ _ => failsAt_pure _
        refine failsAt_operand (not_isDone_of_lacks ne complete) ?_
        rintro rfl r l' lt read
        exact not_isDone_of_loaded complete lt read
      · refine failsAt_bind failsAt_next fun found l' _ => ?_
        split
        · exact failsAt_pure _
        · exact failsAt_fail _
      · exact failsAt_fail _

/-- A statement without its operand is rejected on the next line. -/
theorem failsAt_statement_of_lacks (lacks : l.lacksOperand) :
    FailsAt (l.number + 1) statement l := by
  obtain ⟨number, tokens, ending⟩ := l
  have start : ∃ op ts, op ≠ .entrypoint ∧ tokens = .instruction op :: ts := by
    obtain ⟨-, ⟨op, tokens, -, ne⟩ | ⟨r, tokens, -⟩⟩ := Line.lacksOperand_iff.1 lacks
    · exact ⟨op, [], ne, tokens⟩
    · exact ⟨.mov, [.register r], by decide, tokens⟩
  obtain ⟨op, ts, ne, rfl⟩ := start
  have rest : FailsAt (number + 1) (operand op >>= fun o => pure (Statement.instruction op o))
      ⟨number, ts, ending⟩ :=
    failsAt_bind (failsAt_operand_of_lacks lacks) fun _ _ _ => failsAt_pure _
  refine failsAt_next_bind (l := ⟨number, ts, ending⟩) ?_
  refine failsAt_lineNumber_bind ?_
  cases op <;> first | exact rest | exact absurd rfl ne

theorem failsAt_finish : FailsAt l.number finish l := by
  refine failsAt_bind failsAt_next fun found l' read => ?_
  split
  · exact failsAt_pure _
  · exact failsAt_pure _
  · rename_i t ne
    rw [eq_before_of_run_next read ne]
    exact failsAt_reject _

end Reader

/-! ## Lines -/

theorem OperandTokens.ne_nil {op : Op} {ts : List Token} {o : Operand} (h : OperandTokens op ts o)
    (has : op.hasOperand) : ts ≠ [] := by
  rintro rfl
  cases h with
  | none plain => exact absurd has (Bool.eq_false_iff.1 plain)
  | literal written => cases written

theorem OperandTokens.ne_register {ts : List Token} {o : Operand} (h : OperandTokens .mov ts o)
    (r : Nat) : ts ≠ [.register r] := by
  rintro rfl
  cases h with
  | load _ written => cases written

/-- The tokens of a statement do not end before its operand. -/
theorem StatementTokens.complete {ts : List Token} {s : Statement} (h : StatementTokens ts s)
    (ne : s ≠ .blank) (l : Line) : ¬ (l.before ts).lacksOperand := by
  rw [Line.lacksOperand_iff, Line.tokens_before]
  rintro ⟨-, lacks⟩
  cases h with
  | blank => exact ne rfl
  | label name => obtain ⟨op, tokens, -⟩ | ⟨r, tokens, -⟩ := lacks <;> cases tokens
  | entrypoint name => obtain ⟨op, tokens, -⟩ | ⟨r, tokens, -⟩ := lacks <;> cases tokens
  | instruction _ operand =>
    obtain ⟨op, tokens, has, -⟩ | ⟨r, tokens, -⟩ := lacks
    · obtain ⟨same, nil⟩ := List.cons.inj tokens
      cases same
      exact operand.ne_nil has (List.append_eq_nil_iff.1 nil).1
    · obtain ⟨same, one⟩ := List.cons.inj tokens
      cases same
      obtain ⟨nil, -⟩ | ⟨only, -⟩ := List.append_eq_singleton_iff.1 one
      · exact operand.ne_nil rfl nil
      · exact operand.ne_register r only

theorem Line.IsStatement.complete {l : Line} (h : l.IsStatement) : ¬ l.lacksOperand := by
  obtain ⟨-, s, written⟩ := h
  by_cases blank : s = .blank
  · subst blank
    generalize tokens : l.tokens = ts at written
    cases written
    simp [lacksOperand, tokens]
  · rw [l.eq_before]
    exact written.complete blank _

theorem Draft.line_of_addStatement {d : Draft} {number : Nat} {s : Statement} {e : Error}
    (h : d.addStatement number s = .error e) : e.line = number := by
  cases s with
  | label name =>
    unfold addStatement at h
    dsimp only at h
    split at h
    · cases h
      rfl
    · cases h
  | blank | entrypoint name | instruction op operand => cases h

/-- A line that cannot be added is named by the error or, if it lacks an operand, the one below. -/
theorem Draft.line_of_addLine {d : Draft} {l : Line} {e : Error} (clean : .newline ∉ l.tokens)
    (h : d.addLine l = .error e) : e.line = l.number + if l.lacksOperand then 1 else 0 := by
  cases read : Reader.statement.run l with
  | error e' =>
    rw [addLine_of_error d read] at h
    cases h
    by_cases lacks : l.lacksOperand
    · rw [if_pos lacks]
      exact Reader.failsAt_statement_of_lacks lacks e read
    · rw [if_neg lacks]
      exact Reader.failsAt_statement clean lacks e read
  | ok result =>
    obtain ⟨s, rest⟩ := result
    obtain ⟨rfl, -, -⟩ | ⟨ne, ts, tokens, rfl⟩ := Reader.statementTokens_of_run read clean
    · rw [addLine_of_blank d read] at h
      cases h
    -- The operand was read, so what is left to fail names the line itself.
    rw [if_neg (tokens.complete ne rest)]
    rw [addLine_of_statement d read ne] at h
    cases added : d.addStatement (rest.before ts).number s with
    | error e' =>
      rw [added] at h
      cases h
      exact line_of_addStatement added
    | ok d' =>
      rw [added, ok_bind] at h
      cases finished : Reader.finish.run rest with
      | error e' =>
        rw [finished] at h
        cases h
        have last : e.line = rest.number := Reader.failsAt_finish e finished
        exact last
      | ok u =>
        rw [finished] at h
        cases h

/-- The line is a row of the text, the one behind `front`. -/
def Line.IsReadBehind (front bytes : List UInt8) (l : Line) : Prop :=
  ∃ row back, bytes = front ++ row ++ back ∧ IsRow front row back ∧
    l = Row.toLine (1 + front.count lineFeed) back.isEmpty row

theorem Line.exists_isReadBehind {bytes : List UInt8} {l : Line} (h : l ∈ lines bytes) :
    ∃ front, l.IsReadBehind front bytes := by
  obtain ⟨above, below, split⟩ := List.append_of_mem h
  obtain ⟨before, row, after, rows, line⟩ := exists_row_of_linesFrom split
  obtain ⟨front, back, bytes, isRow, count, last⟩ := exists_isRow_of_rows rows
  exact ⟨front, row, back, bytes, isRow, by rw [line, count, last]⟩

theorem Line.IsReadBehind.number_eq {front bytes : List UInt8} {l : Line}
    (h : l.IsReadBehind front bytes) : l.number = 1 + front.count lineFeed := by
  obtain ⟨row, back, -, -, rfl⟩ := h
  rfl

/-! ## Texts -/

/-- The line is to blame for an error: the lines above it can be collected, but not with it, or all
lines can be collected and it uses an unknown label. -/
inductive Blamed (ls : List Line) (l : Line) : Cause → Prop where
  | statement {above below : List Line} {cause : Cause} (all : ls = above ++ l :: below)
      (collected : Collectable above) (rejected : ¬ Collectable (above ++ [l])) :
      Blamed ls l cause
  | label {name : String} (mem : l ∈ ls) (collected : Collectable ls)
      (use : l.target? = some name ∨ l.entry? = some name) (unknown : name ∉ definedLabels ls) :
      Blamed ls l (.unknownLabel name)

theorem Blamed.mem {ls : List Line} {l : Line} {cause : Cause} (h : Blamed ls l cause) : l ∈ ls := by
  cases h with
  | statement all _ _ => simp [all]
  | label mem _ _ _ => exact mem

theorem exists_use_of_references {ls : List Line} {r : String × Nat} (h : r ∈ references ls) :
    ∃ l ∈ ls, l.number = r.2 ∧ (l.target? = some r.1 ∨ l.entry? = some r.1) := by
  obtain jump | entry := List.mem_append.1 h
  · obtain ⟨l, mem, use⟩ := List.mem_filterMap.1 jump
    obtain ⟨target, number⟩ := Line.jumpUse?_eq_some_iff.1 use
    exact ⟨l, mem, number, .inl target⟩
  · have last := List.mem_of_getLast? (Option.mem_toList.1 entry)
    obtain ⟨l, mem, use⟩ := List.mem_filterMap.1 last
    obtain ⟨entry, number⟩ := Line.entryUse?_eq_some_iff.1 use
    exact ⟨l, mem, number, .inr entry⟩

/-- Lines that are not assembled have one to blame, which the error names. -/
theorem exists_blamed_of_assembleLines {ls : List Line} {e : Error}
    (clean : ∀ l ∈ ls, .newline ∉ l.tokens) (h : assembleLines ls = .error e) :
    ∃ l, Blamed ls l e.cause ∧ e.line = l.number + if l.lacksOperand then 1 else 0 := by
  by_cases collectable : Collectable ls
  · obtain ⟨r, first, rfl⟩ := (assembleLines_eq_error_iff clean collectable).1 h
    have unknown : r.1 ∉ definedLabels ls := by simpa using List.find?_some first
    obtain ⟨l, mem, number, use⟩ := exists_use_of_references (List.mem_of_find?_eq_some first)
    refine ⟨l, .label mem collectable use unknown, ?_⟩
    rw [if_neg (collectable.1 l mem).complete, number]
    rfl
  · cases collected : ls.foldlM Draft.addLine .empty with
    | ok d => exact absurd ((collectable_iff clean).2 ⟨d, collected⟩) collectable
    | error e' =>
      rw [assembleLines, collected] at h
      cases h
      obtain ⟨above, l, below, d, rfl, passed, failed⟩ := exists_of_foldlM_eq_error collected
      rw [List.forall_mem_append, List.forall_mem_cons] at clean
      refine ⟨l, .statement rfl ((collectable_iff clean.1).2 ⟨d, passed⟩) ?_, ?_⟩
      · intro more
        have one : ∀ m ∈ above ++ [l], .newline ∉ m.tokens := by
          simpa [or_imp, forall_and] using ⟨clean.1, clean.2.1⟩
        obtain ⟨d', all⟩ := (collectable_iff one).1 more
        obtain ⟨d1, same, added⟩ := Draft.foldlM_snoc_eq_ok_iff.1 all
        rw [passed] at same
        cases same
        rw [failed] at added
        cases added
      · exact Draft.line_of_addLine clean.2.1 failed

/-- **The line that an error names.** Each line of a text that assembles is a statement by itself.
When a text does not assemble, the error names the line that is to blame, counted by the line feeds
in front of it, or the next one, if that line ends where an operand has to stand. -/
theorem line_of_assemble (text : String) :
    (∀ p, assemble text = .ok p → ∀ l ∈ lines (Utf8.encode text.toList), l.IsStatement) ∧
      ∀ e, assemble text = .error e →
        ∃ l front, Blamed (lines (Utf8.encode text.toList)) l e.cause ∧
          l.IsReadBehind front (Utf8.encode text.toList) ∧
          e.line = 1 + front.count lineFeed + if l.lacksOperand then 1 else 0 := by
  constructor
  · intro p assembled
    exact (assembleBytes_isOk_iff.1 ⟨p, assembled⟩).lines
  · intro e rejected
    obtain ⟨l, blamed, line⟩ := exists_blamed_of_assembleLines newline_not_mem_lines rejected
    obtain ⟨front, behind⟩ := Line.exists_isReadBehind blamed.mem
    exact ⟨l, front, blamed, behind, by rw [line, behind.number_eq]⟩

/-- A text whose third line goes on behind its statement. -/
def trailingText : String := "main:\n\n  jmp main main\n  halt"

theorem line_of_assemble_trailing :
    ∃ l front, Blamed (lines (Utf8.encode trailingText.toList)) l (.expectedNewline (.name "main")) ∧
      l.IsReadBehind front (Utf8.encode trailingText.toList) ∧
      3 = 1 + front.count lineFeed + if l.lacksOperand then 1 else 0 :=
  (line_of_assemble trailingText).2 ⟨3, .expectedNewline (.name "main")⟩ (by decide +kernel)

/-- A text whose first line is cut off where an operand has to stand. -/
def cutText : String := "push\n"

/-- The error need not name the line that is to blame. -/
theorem assemble_cutText :
    assemble cutText = .error ⟨2, .expectedLiteral (some .newline)⟩ ∧
      ∀ l cause, Blamed (lines (Utf8.encode cutText.toList)) l cause → l.number = 1 := by
  have read : lines (Utf8.encode cutText.toList) =
      [⟨1, [.instruction .push], .newline⟩, ⟨2, [], .endOfText⟩] := by decide +kernel
  refine ⟨by decide +kernel, fun l cause blamed => ?_⟩
  rw [read] at blamed
  have cut (ls : List Line) : ¬ Collectable (⟨1, [.instruction .push], .newline⟩ :: ls) :=
    fun collectable => (collectable.1 _ List.mem_cons_self).complete (by decide)
  cases blamed with
  | @statement above below _ all collected _ =>
    cases above with
    | nil =>
      cases all
      rfl
    | cons first above =>
      cases (List.cons.inj all).1
      exact absurd collected (cut above)
  | label _ collected _ _ => exact absurd collected (cut _)

end StackLang.Assembly
