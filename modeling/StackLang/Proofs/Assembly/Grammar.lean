import StackLang.Assembly.Assemble
import StackLang.Proofs.Results

/-!
# The grammar of a line

What a line may hold is a statement: nothing, a label with its colon, the directive that names
the entry label, or an instruction with an operand of its kind. `StatementTokens` says which
tokens are which statement, and a line is accepted exactly if its tokens are a statement that the
draft takes, `addLine_eq_ok_iff`.
-/

namespace StackLang.Assembly

open Bytecode Numeric

/-- The tokens of a literal and its value. -/
inductive LiteralTokens : List Token → Value → Prop where
  | number (n : Word) : LiteralTokens [.number n] ⟨n, .int⟩
  | float (p : Nat) : LiteralTokens [.float p] (.float (Binary.double.convert .single p))
  | char (c : UInt8) : LiteralTokens [.char c] (.char c)
  | typedNumber (tag : Tag) (n : Word) :
      LiteralTokens [.type tag, .number n] ⟨Reader.typedNumber tag n, tag⟩
  | typedChar (tag : Tag) (c : UInt8) :
      LiteralTokens [.type tag, .char c] ⟨.ofNat c.toNat, tag⟩
  | typedFloat (p : Nat) :
      LiteralTokens [.type .float, .float p] (.float (Binary.double.convert .single p))
  | typedDouble (p : Nat) : LiteralTokens [.type .double, .float p] (.double p)

/-- The tokens of an operand of `op`. -/
inductive OperandTokens : Op → List Token → Operand → Prop where
  | none {op : Op} (h : op.hasOperand = false) : OperandTokens op [] .none
  | register {r : Nat} (h : r < registerCount) :
      OperandTokens .push [.register r] (.register r)
  | literal {ts : List Token} {v : Value} (h : LiteralTokens ts v) :
      OperandTokens .push ts (.literal v)
  | text (bytes : List UInt8) : OperandTokens .pushStr [.text bytes] (.text bytes)
  | loadTop {r : Nat} (h : r < registerCount) :
      OperandTokens .mov [.register r, .top] (.load r none)
  | load {r : Nat} {ts : List Token} {v : Value} (h : r < registerCount)
      (literal : LiteralTokens ts v) : OperandTokens .mov (.register r :: ts) (.load r (some v))
  | index {op : Op} (n : Word) (h : op.isJump ∨ op = .native) :
      OperandTokens op [.number n] (.index n)
  | label {op : Op} (name : String) (h : op.isJump) : OperandTokens op [.name name] (.label name)

/-- The tokens of a statement. -/
inductive StatementTokens : List Token → Statement → Prop where
  | blank : StatementTokens [] .blank
  | label (name : String) : StatementTokens [.name name, .colon] (.label name)
  | entrypoint (name : String) :
      StatementTokens [.instruction .entrypoint, .name name] (.entrypoint name)
  | instruction {op : Op} {ts : List Token} {operand : Operand} (h : op ≠ .entrypoint)
      (tokens : OperandTokens op ts operand) :
      StatementTokens (.instruction op :: ts) (.instruction op operand)

/-- The line with more tokens in front. -/
def Line.before (ts : List Token) (l : Line) : Line := { l with tokens := ts ++ l.tokens }

/-- The line is read up to its end without a fault. -/
def Line.IsWhole (l : Line) : Prop := ∀ cause, l.ending ≠ .fault cause

namespace Reader

@[simp] theorem run_next_before (t : Token) (ts : List Token) (l : Line) :
    next.run (l.before (t :: ts)) = .ok (some t, l.before ts) := rfl

/-- A token that is no line feed was the first one of the line. -/
theorem eq_before_of_run_next {l l' : Line} {t : Token} (h : next.run l = .ok (some t, l'))
    (ne : t ≠ .newline) : l = l'.before [t] := by
  obtain ⟨number, tokens, ending⟩ := l
  cases tokens with
  | cons t rest =>
    cases h
    rfl
  | nil =>
    cases ending with
    | newline =>
      cases h
      exact absurd rfl ne
    | endOfText => cases h
    | fault cause => cases h

theorem run_register {r : Nat} (h : r < registerCount) (l : Line) :
    (register r).run l = .ok (r, l) := by
  rw [register, if_neg (Nat.not_le.2 h)]
  rfl

theorem run_register_eq_ok {r s : Nat} {l l' : Line} (h : (register r).run l = .ok (s, l')) :
    r < registerCount ∧ s = r ∧ l' = l := by
  unfold register at h
  split at h
  · cases h
  · rename_i lt
    cases h
    exact ⟨Nat.not_le.1 lt, rfl, rfl⟩

theorem literalTokens_of_run {first : Option Token} {v : Value} {l l' m : Line}
    (start : next.run m = .ok (first, l)) (h : (literal first).run l = .ok (v, l')) :
    ∃ ts, LiteralTokens ts v ∧ m = l'.before ts := by
  unfold literal at h
  obtain ⟨line, l1, got, inner⟩ := run_bind_eq_ok_iff.1 h
  clear h
  cases got
  split at inner
  · rename_i tag
    obtain ⟨found, l2, second, typed⟩ := run_bind_eq_ok_iff.1 inner
    clear inner
    have outer := eq_before_of_run_next start (by simp)
    split at typed
    · rename_i n
      cases typed
      exact ⟨_, .typedNumber tag n, by rw [outer, eq_before_of_run_next second (by simp)]; rfl⟩
    · rename_i p
      cases typed
      exact ⟨_, .typedFloat p, by rw [outer, eq_before_of_run_next second (by simp)]; rfl⟩
    · rename_i p
      cases typed
      exact ⟨_, .typedDouble p, by rw [outer, eq_before_of_run_next second (by simp)]; rfl⟩
    · rename_i c
      cases typed
      exact ⟨_, .typedChar tag c, by rw [outer, eq_before_of_run_next second (by simp)]; rfl⟩
    · cases typed
  · rename_i n
    cases inner
    exact ⟨_, .number n, eq_before_of_run_next start (by simp)⟩
  · rename_i p
    cases inner
    exact ⟨_, .float p, eq_before_of_run_next start (by simp)⟩
  · rename_i c
    cases inner
    exact ⟨_, .char c, eq_before_of_run_next start (by simp)⟩
  · cases inner

theorem run_operand {op : Op} {ts : List Token} {o : Operand} (h : OperandTokens op ts o)
    (l : Line) : (operand op).run (l.before ts) = .ok (o, l) := by
  cases h with
  | none h => cases op <;> first | rfl | cases h
  | register h =>
    refine run_bind_eq_ok_iff.2 ⟨_, _, run_next_before _ _ _, ?_⟩
    exact run_bind_eq_ok_iff.2 ⟨_, _, run_register h l, rfl⟩
  | literal h => cases h <;> rfl
  | text bytes => rfl
  | loadTop h =>
    refine run_bind_eq_ok_iff.2 ⟨_, _, run_next_before _ _ _, ?_⟩
    exact run_bind_eq_ok_iff.2 ⟨_, _, run_register h _, rfl⟩
  | load h literal =>
    refine run_bind_eq_ok_iff.2 ⟨_, _, run_next_before _ _ _, ?_⟩
    refine run_bind_eq_ok_iff.2 ⟨_, _, run_register h _, ?_⟩
    cases literal <;> rfl
  | index n h =>
    rcases h with h | rfl
    · cases op <;> first | rfl | cases h
    · rfl
  | label name h => cases op <;> first | rfl | cases h

/-- Every jump reads its operand in the same way. -/
theorem operand_jump {op : Op} (h : op.isJump) : operand op = operand .call := by
  cases op <;> first | rfl | cases h

theorem operandTokens_of_run {op : Op} {o : Operand} {l l' : Line} (ne : op ≠ .entrypoint)
    (h : (operand op).run l = .ok (o, l')) : ∃ ts, OperandTokens op ts o ∧ l = l'.before ts := by
  by_cases jump : op.isJump
  · rw [operand_jump jump] at h
    obtain ⟨first, l1, start, rest⟩ := run_bind_eq_ok_iff.1 h
    clear h
    split at rest
    · rename_i n
      cases rest
      exact ⟨_, .index n (.inl jump), eq_before_of_run_next start (by simp)⟩
    · rename_i name
      cases rest
      exact ⟨_, .label name jump, eq_before_of_run_next start (by simp)⟩
    · cases rest
  unfold operand at h
  split at h
  · obtain ⟨first, l1, start, rest⟩ := run_bind_eq_ok_iff.1 h
    clear h
    split at rest
    · rename_i r
      obtain ⟨s, l2, inner, last⟩ := run_bind_eq_ok_iff.1 rest
      obtain ⟨lt, rfl, rfl⟩ := run_register_eq_ok inner
      cases last
      exact ⟨_, .register lt, eq_before_of_run_next start (by simp)⟩
    · obtain ⟨v, l2, inner, last⟩ := run_bind_eq_ok_iff.1 rest
      cases last
      obtain ⟨ts, tokens, eq⟩ := literalTokens_of_run start inner
      exact ⟨ts, .literal tokens, eq⟩
  · obtain ⟨first, l1, start, rest⟩ := run_bind_eq_ok_iff.1 h
    clear h
    split at rest
    · rename_i bytes
      cases rest
      exact ⟨_, .text bytes, eq_before_of_run_next start (by simp)⟩
    · cases rest
  · obtain ⟨first, l1, start, rest⟩ := run_bind_eq_ok_iff.1 h
    clear h
    split at rest
    · rename_i r
      obtain ⟨s, l2, inner, more⟩ := run_bind_eq_ok_iff.1 rest
      obtain ⟨lt, rfl, rfl⟩ := run_register_eq_ok inner
      obtain ⟨second, l3, next, last⟩ := run_bind_eq_ok_iff.1 more
      have outer := eq_before_of_run_next start (by simp)
      clear rest more
      split at last
      · cases last
        exact ⟨_, .loadTop lt, by rw [outer, eq_before_of_run_next next (by simp)]; rfl⟩
      · obtain ⟨v, l4, inner, last⟩ := run_bind_eq_ok_iff.1 last
        cases last
        obtain ⟨ts, tokens, eq⟩ := literalTokens_of_run next inner
        exact ⟨_, .load lt tokens, by rw [outer, eq]; rfl⟩
    · cases rest
  iterate 4 exact absurd rfl jump
  · obtain ⟨first, l1, start, rest⟩ := run_bind_eq_ok_iff.1 h
    clear h
    split at rest
    · rename_i n
      cases rest
      exact ⟨_, .index n (.inr rfl), eq_before_of_run_next start (by simp)⟩
    · cases rest
  · cases h
    refine ⟨[], .none ?_, rfl⟩
    cases op <;> first | rfl | contradiction

/-- A line without a line feed among its tokens is at its end if nothing or a line feed comes
next. -/
theorem tokens_eq_nil_of_run_next {l l' : Line} {t : Option Token}
    (h : next.run l = .ok (t, l')) (eq : t = none ∨ t = some .newline)
    (clean : .newline ∉ l.tokens) : l.tokens = [] ∧ l.IsWhole := by
  obtain ⟨number, tokens, ending⟩ := l
  cases tokens with
  | cons u rest =>
    cases h
    rcases eq with eq | eq
    · cases eq
    · cases eq
      exact absurd List.mem_cons_self clean
  | nil =>
    refine ⟨rfl, fun cause eq => ?_⟩
    cases eq
    cases h

theorem run_next_of_nil {l : Line} (tokens : l.tokens = []) (whole : l.IsWhole) :
    ∃ t l', next.run l = .ok (t, l') ∧ (t = none ∨ t = some .newline) := by
  obtain ⟨number, _, ending⟩ := l
  cases tokens
  cases ending with
  | newline => exact ⟨_, _, rfl, .inr rfl⟩
  | endOfText => exact ⟨_, _, rfl, .inl rfl⟩
  | fault cause => exact absurd rfl (whole cause)

theorem run_finish_iff {l : Line} (clean : .newline ∉ l.tokens) :
    (∃ u, finish.run l = .ok u) ↔ l.tokens = [] ∧ l.IsWhole := by
  constructor
  · rintro ⟨u, h⟩
    obtain ⟨t, l1, start, rest⟩ := run_bind_eq_ok_iff.1 h
    clear h
    split at rest
    · exact tokens_eq_nil_of_run_next start (.inl rfl) clean
    · exact tokens_eq_nil_of_run_next start (.inr rfl) clean
    · cases rest
  · rintro ⟨tokens, whole⟩
    obtain ⟨t, l', next, rfl | rfl⟩ := run_next_of_nil tokens whole
    · exact ⟨_, run_bind_eq_ok_iff.2 ⟨_, _, next, rfl⟩⟩
    · exact ⟨_, run_bind_eq_ok_iff.2 ⟨_, _, next, rfl⟩⟩

theorem run_statement {ts : List Token} {s : Statement} (h : StatementTokens ts s)
    (ne : s ≠ .blank) (l : Line) : statement.run (l.before ts) = .ok (s, l) := by
  cases h with
  | blank => exact absurd rfl ne
  | label name => rfl
  | entrypoint name => rfl
  | @instruction op ts o h tokens =>
    refine run_bind_eq_ok_iff.2 ⟨_, _, run_next_before _ _ _, ?_⟩
    refine run_bind_eq_ok_iff.2 ⟨_, _, rfl, ?_⟩
    have last : (operand op >>= fun o => pure (Statement.instruction op o)).run (l.before ts) =
        .ok (.instruction op o, l) :=
      run_bind_eq_ok_iff.2 ⟨_, _, run_operand tokens l, rfl⟩
    cases op <;> first | exact last | exact absurd rfl h

theorem statementTokens_of_run {s : Statement} {l l' : Line} (h : statement.run l = .ok (s, l'))
    (clean : .newline ∉ l.tokens) :
    s = .blank ∧ l.tokens = [] ∧ l.IsWhole ∨
      s ≠ .blank ∧ ∃ ts, StatementTokens ts s ∧ l = l'.before ts := by
  obtain ⟨first, l1, start, rest⟩ := run_bind_eq_ok_iff.1 h
  clear h
  split at rest
  · cases rest
    exact .inl ⟨rfl, tokens_eq_nil_of_run_next start (.inl rfl) clean⟩
  · cases rest
    exact .inl ⟨rfl, tokens_eq_nil_of_run_next start (.inr rfl) clean⟩
  · rename_i first ne
    refine .inr ?_
    have nonNewline : first ≠ .newline := ne
    obtain ⟨line, l2, got, inner⟩ := run_bind_eq_ok_iff.1 rest
    cases got
    clear rest
    have outer := eq_before_of_run_next start nonNewline
    split at inner
    · obtain ⟨second, l3, next, last⟩ := run_bind_eq_ok_iff.1 inner
      clear inner
      split at last
      · rename_i name
        cases last
        refine ⟨by simp, _, .entrypoint name, ?_⟩
        rw [outer, eq_before_of_run_next next (by simp)]
        rfl
      · cases last
    · rename_i op isInstruction
      obtain ⟨o, l3, read, last⟩ := run_bind_eq_ok_iff.1 inner
      cases last
      have ne : op ≠ .entrypoint := isInstruction
      obtain ⟨ts, tokens, eq⟩ := operandTokens_of_run ne read
      exact ⟨by simp, _, .instruction ne tokens, by rw [outer, eq]; rfl⟩
    · rename_i name
      obtain ⟨second, l3, next, last⟩ := run_bind_eq_ok_iff.1 inner
      clear inner
      split at last
      · cases last
        refine ⟨by simp, _, .label name, ?_⟩
        rw [outer, eq_before_of_run_next next (by simp)]
        rfl
      · cases last
    · cases inner

end Reader

/-! ## Lines -/

@[simp] theorem Line.tokens_before (ts : List Token) (l : Line) :
    (l.before ts).tokens = ts ++ l.tokens := rfl

theorem Line.eq_before (l : Line) : l = Line.before l.tokens { l with tokens := [] } := by
  simp [Line.before]

/-- A line is accepted exactly if its tokens are a statement that the draft takes. -/
theorem Draft.addLine_eq_ok_iff {d d' : Draft} {l : Line} (clean : .newline ∉ l.tokens) :
    d.addLine l = .ok d' ↔
      ∃ s, StatementTokens l.tokens s ∧ l.IsWhole ∧ d.addStatement l.number s = .ok d' := by
  constructor
  · intro h
    obtain ⟨⟨s, rest⟩, read, h⟩ := bind_eq_ok_iff.1 h
    obtain ⟨d1, added, last⟩ := bind_eq_ok_iff.1 h
    clear h
    obtain ⟨rfl, tokens, whole⟩ | ⟨ne, ts, tokens, rfl⟩ := Reader.statementTokens_of_run read clean
    · cases last
      exact ⟨.blank, by rw [tokens]; exact .blank, whole, added⟩
    · rw [if_neg ne] at last
      obtain ⟨u, finished, same⟩ := bind_eq_ok_iff.1 last
      cases same
      rw [Line.tokens_before, List.mem_append, not_or] at clean
      obtain ⟨nil, whole⟩ := (Reader.run_finish_iff clean.2).1 ⟨u, finished⟩
      exact ⟨s, by simpa [nil] using tokens, whole, added⟩
  · rintro ⟨s, tokens, whole, added⟩
    by_cases blank : s = .blank
    · subst blank
      have nil : l.tokens = [] := by
        generalize l.tokens = ts at tokens
        cases tokens
        rfl
      cases added
      obtain ⟨t, l', next, eq⟩ := Reader.run_next_of_nil nil whole
      refine bind_eq_ok_iff.2 ⟨(.blank, l'), ?_, rfl⟩
      refine run_bind_eq_ok_iff.2 ⟨_, _, next, ?_⟩
      rcases eq with rfl | rfl <;> rfl
    · let rest : Line := { l with tokens := [] }
      refine bind_eq_ok_iff.2 ⟨(s, rest), ?_, bind_eq_ok_iff.2 ⟨_, added, ?_⟩⟩
      · rw [l.eq_before]
        exact Reader.run_statement tokens blank _
      · rw [if_neg blank]
        obtain ⟨u, finished⟩ :=
          (Reader.run_finish_iff (show .newline ∉ rest.tokens by simp [rest])).2 ⟨rfl, whole⟩
        exact bind_eq_ok_iff.2 ⟨u, finished, rfl⟩

/-! ## Scanned tokens -/

/-- The tokens that a row can hold: the words of the tags of registers and of the stack top are no
types, and a line feed ends the row. -/
def Token.IsScanned (t : Token) : Prop := t ≠ .newline ∧ t ≠ .type .reg ∧ t ≠ .type .top

theorem Token.isScanned_ofWord (word : String) : (ofWord word).IsScanned := by
  unfold ofWord
  repeat' split
  all_goals simp_all [IsScanned]

namespace Row

/-- A number token is a word or the pattern of a float. -/
theorem numberToken_cases {text : List Char} {t : Token} (h : numberToken text = .ok t) :
    (∃ n, t = .number n) ∨ ∃ pattern, t = .float pattern := by
  unfold numberToken at h
  split at h
  · rename_i u number
    cases h
    unfold number? at number
    dsimp only at number
    split at number
    all_goals
      split at number
      · obtain ⟨d, -, rfl⟩ := Option.map_eq_some_iff.1 number
        exact .inr ⟨_, rfl⟩
      · obtain ⟨n, -, rfl⟩ := Option.map_eq_some_iff.1 number
        exact .inl ⟨_, rfl⟩
  · cases h

theorem isScanned_of_numberToken {text : List Char} {t : Token} (h : numberToken text = .ok t) :
    t.IsScanned := by
  obtain ⟨n, rfl⟩ | ⟨pattern, rfl⟩ := numberToken_cases h <;> simp [Token.IsScanned]

theorem isScanned_of_scan {after : Char} {b : UInt8} {rest r : List UInt8} {t : Token}
    (h : scan after b rest = .ok (t, r)) : t.IsScanned := by
  unfold scan at h
  split at h
  · obtain ⟨p, -, h⟩ := bind_eq_ok_iff.1 h
    cases h
    simp [Token.IsScanned]
  split at h
  · obtain ⟨p, -, inner⟩ := bind_eq_ok_iff.1 h
    obtain ⟨u, char, last⟩ := bind_eq_ok_iff.1 inner
    cases last
    unfold charToken at char
    split at char <;> cases char <;> simp [Token.IsScanned]
  split at h
  · cases h
    simp [Token.IsScanned]
  split at h
  · obtain ⟨u, number, last⟩ := bind_eq_ok_iff.1 h
    cases last
    exact isScanned_of_numberToken number
  split at h
  · cases h
    exact Token.isScanned_ofWord _
  · cases h

theorem isScanned_of_mem_tokens {after : Char} {bytes : List UInt8} {t : Token}
    (h : t ∈ (tokens after bytes).1) : t.IsScanned := by
  fun_induction tokens after bytes with
  | case1 => simp at h
  | case2 _ _ _ ih => exact ih h
  | case3 => simp at h
  | case4 => simp at h
  | case5 b rest _ _ u r scanned _ ts fault eq ih =>
    rcases List.mem_cons.1 h with rfl | mem
    · exact isScanned_of_scan scanned
    · exact ih (by rw [eq]; exact mem)

end Row

theorem isScanned_of_mem_lines {bytes : List UInt8} {l : Line} (h : l ∈ lines bytes) :
    ∀ t ∈ l.tokens, t.IsScanned := by
  have each (number : Nat) (rows : List (List UInt8)) (h : l ∈ linesFrom number rows) :
      ∀ t ∈ l.tokens, t.IsScanned := by
    fun_induction linesFrom number rows with
    | case1 => simp at h
    | case2 number row =>
      rw [List.mem_singleton.1 h]
      exact fun t mem => Row.isScanned_of_mem_tokens mem
    | case3 number row rows _ ih =>
      rcases List.mem_cons.1 h with rfl | mem
      · exact fun t mem => Row.isScanned_of_mem_tokens mem
      · exact ih mem
  exact each 1 _ h

theorem newline_not_mem_lines {bytes : List UInt8} :
    ∀ l ∈ lines bytes, .newline ∉ l.tokens := fun _ mem newline =>
  (isScanned_of_mem_lines mem _ newline).1 rfl

end StackLang.Assembly
