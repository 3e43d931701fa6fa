import StackLang.Proofs.Source.Moves

/-!
# Blocks of accepted programs

A parse keeps its open blocks and its open labels in two stacks, and `if`, `while` and `then` each
push on one of them. Every `else` and `end` of an accepted program has its block, but nothing asks
for a `then`, and blocks may stay open. Where each condition has its `then` directly behind it, the
two stacks go in step: the statements are those of a well nested program from which as many ends
are missing as blocks are open.
-/

namespace StackLang.Source

/-! ## Statements that stand for blocks -/

/-- Whether a statement is the condition of a block, which a `then` is to open. -/
def Statement.isCondition : Statement → Bool
  | .ifThen _ | .whileThen _ => true
  | _ => false

/-- Whether a statement is a `then`. -/
def Statement.isOpening : Statement → Bool
  | .opening _ => true
  | _ => false

/-- The open blocks behind a statement, innermost first. An `else` continues an `if` that has none
yet and an end closes any block, but each of them the innermost one only. -/
def nextBlocks? (blocks : List Block) : Statement → Option (List Block)
  | .ifThen _ => some (.branch :: blocks)
  | .whileThen _ => some (.loop :: blocks)
  | .function f => some (.function f.name :: blocks)
  | .otherwise _ _ =>
    match blocks with
    | .branch :: outer => some (.otherwise :: outer)
    | _ => none
  | .closing _ =>
    match blocks with
    | _ :: outer => some outer
    | [] => none
  | _ => some blocks

/-- The blocks that are open behind statements, if every `else` and every end has its block. -/
def openBlocks? (ss : List Statement) : Option (List Block) := ss.foldlM nextBlocks? []

/-- The open labels behind a statement, latest first. -/
def nextLabels? (labels : List Nat) : Statement → Option (List Nat)
  | .opening l => some (l :: labels)
  | .function f => some (f.label :: labels)
  | .otherwise closed opened =>
    match labels with
    | l :: outer => if l = closed then some (opened :: outer) else none
    | [] => none
  | .closing closed =>
    match labels with
    | l :: outer => if l = closed then some outer else none
    | [] => none
  | _ => some labels

/-- Whether a `then` is to come behind a statement, if there is one in front of it exactly if it
was to come. -/
def nextAwaits? (awaits : Bool) (s : Statement) : Option Bool :=
  if s.isOpening = awaits then some s.isCondition else none

/-- Each condition has a `then` directly behind it, and there are no others. -/
def ThensInPlace (ss : List Statement) : Prop := ss.foldlM nextAwaits? false = some false

/-- Well nested statements. A condition has its `then`, a block its end, and `else` and end have
the labels that were opened last in their block. -/
inductive Nested : List Statement → Prop where
  | nil : Nested []
  | plain {s : Statement} (h : s.isPlain) : Nested [s]
  | append {ss ss' : List Statement} (h : Nested ss) (h' : Nested ss') : Nested (ss ++ ss')
  | branch {c : ExprId} {l : Nat} {body : List Statement} (h : Nested body) :
      Nested (.ifThen c :: .opening l :: body ++ [.closing l])
  | alternative {c : ExprId} {l m : Nat} {body other : List Statement} (h : Nested body)
      (h' : Nested other) :
      Nested (.ifThen c :: .opening l :: body ++ .otherwise l m :: other ++ [.closing m])
  | loop {c : ExprId} {l : Nat} {body : List Statement} (h : Nested body) :
      Nested (.whileThen c :: .opening l :: body ++ [.closing l])
  | function {f : Function} {body : List Statement} (h : Nested body) :
      Nested (.function f :: body ++ [.closing f.label])

theorem nextBlocks?_otherwise {blocks blocks' : List Block} {closed opened : Nat} :
    nextBlocks? blocks (.otherwise closed opened) = some blocks' ↔
      ∃ outer, blocks = .branch :: outer ∧ blocks' = .otherwise :: outer := by
  cases blocks with
  | nil => simp [nextBlocks?]
  | cons block outer => cases block <;> simp [nextBlocks?, eq_comm]

theorem nextBlocks?_closing {blocks blocks' : List Block} {closed : Nat} :
    nextBlocks? blocks (.closing closed) = some blocks' ↔ ∃ block, blocks = block :: blocks' := by
  cases blocks <;> simp [nextBlocks?]

theorem nextLabels?_otherwise {labels labels' : List Nat} {closed opened : Nat} :
    nextLabels? labels (.otherwise closed opened) = some labels' ↔
      ∃ outer, labels = closed :: outer ∧ labels' = opened :: outer := by
  cases labels <;> simp [nextLabels?, eq_comm, and_assoc]

theorem nextLabels?_closing {labels labels' : List Nat} {closed : Nat} :
    nextLabels? labels (.closing closed) = some labels' ↔ labels = closed :: labels' := by
  cases labels <;> simp [nextLabels?]

theorem openBlocks?_snoc (ss : List Statement) (st : Statement) :
    openBlocks? (ss ++ [st]) = (openBlocks? ss).bind (nextBlocks? · st) := by
  simp [openBlocks?, List.foldlM_append]

theorem foldlM_nextAwaits?_snoc {ss : List Statement} {st : Statement} {w : Bool} :
    (ss ++ [st]).foldlM nextAwaits? false = some w ↔
      ss.foldlM nextAwaits? false = some st.isOpening ∧ w = st.isCondition := by
  rw [List.foldlM_append]
  cases ss.foldlM nextAwaits? false <;> simp [nextAwaits?, eq_comm]

/-! ## Well nested statements leave nothing open -/

theorem nextBlocks?_of_isPlain {s : Statement} (h : s.isPlain) (blocks : List Block) :
    nextBlocks? blocks s = some blocks := by
  cases s <;> simp_all [Statement.isPlain, nextBlocks?]

theorem nextLabels?_of_isPlain {s : Statement} (h : s.isPlain) (labels : List Nat) :
    nextLabels? labels s = some labels := by
  cases s <;> simp_all [Statement.isPlain, nextLabels?]

theorem Statement.isOpening_of_isPlain {s : Statement} (h : s.isPlain) : s.isOpening = false := by
  cases s <;> simp_all [Statement.isPlain, isOpening]

theorem Statement.isCondition_of_isPlain {s : Statement} (h : s.isPlain) :
    s.isCondition = false := by
  cases s <;> simp_all [Statement.isPlain, isCondition]

namespace Nested

variable {ss : List Statement}

theorem foldlM_nextBlocks? (h : Nested ss) (blocks : List Block) :
    ss.foldlM nextBlocks? blocks = some blocks := by
  induction h generalizing blocks with
  | nil => rfl
  | plain h => simp [nextBlocks?_of_isPlain h]
  | append _ _ ih ih' => simp [List.foldlM_append, ih, ih']
  | branch _ ih => simp [List.foldlM_append, nextBlocks?, ih]
  | alternative _ _ ih ih' => simp [List.foldlM_append, nextBlocks?, ih, ih']
  | loop _ ih => simp [List.foldlM_append, nextBlocks?, ih]
  | function _ ih => simp [List.foldlM_append, nextBlocks?, ih]

theorem openBlocks?_eq (h : Nested ss) : openBlocks? ss = some [] := h.foldlM_nextBlocks? []

theorem thensInPlace (h : Nested ss) : ThensInPlace ss := by
  unfold ThensInPlace
  induction h with
  | nil => rfl
  | plain h =>
    simp [nextAwaits?, Statement.isOpening_of_isPlain h, Statement.isCondition_of_isPlain h]
  | append _ _ ih ih' => simp [List.foldlM_append, ih, ih']
  | branch _ ih =>
    simp [List.foldlM_append, nextAwaits?, Statement.isOpening, Statement.isCondition, ih]
  | alternative _ _ ih ih' =>
    simp [List.foldlM_append, nextAwaits?, Statement.isOpening, Statement.isCondition, ih, ih']
  | loop _ ih =>
    simp [List.foldlM_append, nextAwaits?, Statement.isOpening, Statement.isCondition, ih]
  | function _ ih =>
    simp [List.foldlM_append, nextAwaits?, Statement.isOpening, Statement.isCondition, ih]

end Nested

/-! ## Up to a place inside of blocks -/

/-- Well nested statements up to a place inside of blocks, with the label that the end of each
block closes. -/
inductive Unfinished : List Block → List Nat → List Statement → Prop where
  | top {ss : List Statement} (h : Nested ss) : Unfinished [] [] ss
  | branch {blocks : List Block} {labels : List Nat} {ss body : List Statement} {c : ExprId}
      {l : Nat} (before : Unfinished blocks labels ss) (h : Nested body) :
      Unfinished (.branch :: blocks) (l :: labels) (ss ++ .ifThen c :: .opening l :: body)
  | otherwise {blocks : List Block} {labels : List Nat} {ss body other : List Statement}
      {c : ExprId} {l m : Nat} (before : Unfinished blocks labels ss) (h : Nested body)
      (h' : Nested other) :
      Unfinished (.otherwise :: blocks) (m :: labels)
        (ss ++ (.ifThen c :: .opening l :: body ++ .otherwise l m :: other))
  | loop {blocks : List Block} {labels : List Nat} {ss body : List Statement} {c : ExprId}
      {l : Nat} (before : Unfinished blocks labels ss) (h : Nested body) :
      Unfinished (.loop :: blocks) (l :: labels) (ss ++ .whileThen c :: .opening l :: body)
  | function {blocks : List Block} {labels : List Nat} {ss body : List Statement} {f : Function}
      (before : Unfinished blocks labels ss) (h : Nested body) :
      Unfinished (.function f.name :: blocks) (f.label :: labels) (ss ++ .function f :: body)

namespace Unfinished

variable {blocks : List Block} {labels : List Nat} {ss : List Statement}

theorem length_eq (h : Unfinished blocks labels ss) : labels.length = blocks.length := by
  induction h with
  | top => rfl
  | branch _ _ ih => simp [ih]
  | otherwise _ _ _ ih => simp [ih]
  | loop _ _ ih => simp [ih]
  | function _ _ ih => simp [ih]

theorem append (h : Unfinished blocks labels ss) {more : List Statement} (n : Nested more) :
    Unfinished blocks labels (ss ++ more) := by
  cases h with
  | top h => exact .top (h.append n)
  | branch before h => simpa using before.branch (h.append n)
  | otherwise before h h' => simpa using before.otherwise h (h'.append n)
  | loop before h => simpa using before.loop (h.append n)
  | function before h => simpa using before.function (h.append n)

/-- An `else` continues the innermost block. -/
theorem alternative {l : Nat} (h : Unfinished (.branch :: blocks) (l :: labels) ss) (m : Nat) :
    Unfinished (.otherwise :: blocks) (m :: labels) (ss ++ [.otherwise l m]) := by
  cases h with
  | branch before h => simpa using before.otherwise h .nil

/-- An end closes the innermost block. -/
theorem closing {block : Block} {l : Nat} (h : Unfinished (block :: blocks) (l :: labels) ss) :
    Unfinished blocks labels (ss ++ [.closing l]) := by
  cases h with
  | branch before h => simpa using before.append (.branch h)
  | otherwise before h h' => simpa using before.append (.alternative h h')
  | loop before h => simpa using before.append (.loop h)
  | function before h => simpa using before.append (.function h)

/-- The missing ends, one for each block, finish the statements. -/
theorem nested (h : Unfinished blocks labels ss) :
    Nested (ss ++ labels.map Statement.closing) := by
  induction labels generalizing blocks ss with
  | nil =>
    cases h with
    | top h => simpa using h
  | cons l labels ih =>
    cases blocks with
    | nil => cases h
    | cons block blocks => simpa using ih h.closing

end Unfinished

/-! ## Along a parse -/

namespace ParseState

variable {s t : ParseState}

/-- What a statement emits is what it does to the blocks and labels; if it emits nothing, they stay
as they are. -/
theorem Move.stacks (h : s.Move t) :
    (t.program.items = s.program.items ∧ t.blocks = s.blocks ∧ t.labels = s.labels) ∨
    ∃ st, t.program.items = s.program.items ++ [st] ∧
      nextBlocks? s.blocks st = some t.blocks ∧ nextLabels? s.labels st = some t.labels := by
  cases h with
  | @plain t loc st read plain =>
    refine .inr ⟨st, by rw [items_emit, read.reads.items], ?_, ?_⟩
    · exact (nextBlocks?_of_isPlain plain _).trans (congrArg some read.reads.blocks.symm)
    · exact (nextLabels?_of_isPlain plain _).trans (congrArg some read.reads.labels.symm)
  | library read => exact .inl ⟨read.reads.items, read.reads.blocks, read.reads.labels⟩
  | globalVariable read => exact .inl ⟨read.reads.items, read.reads.blocks, read.reads.labels⟩
  | @localVariable t d loc read =>
    refine .inr ⟨.declare d, ?_, ?_, ?_⟩
    · exact (items_emit t loc _).trans (congrArg (· ++ [Statement.declare d]) read.reads.items)
    · exact congrArg some read.reads.blocks.symm
    · exact congrArg some read.reads.labels.symm
  | struct head read =>
    exact .inl ⟨read.reads.items.trans head.reads.items, read.reads.blocks.trans head.reads.blocks,
      read.reads.labels.trans head.reads.labels⟩
  | @branch t c loc read =>
    refine .inr ⟨.ifThen c, by simp [read.reads.items, ParseState.enter], ?_, ?_⟩
    · exact congrArg some read.reads.blocks.symm
    · exact congrArg some read.reads.labels.symm
  | @loop t c loc read =>
    refine .inr ⟨.whileThen c, by simp [read.reads.items, ParseState.enter], ?_, ?_⟩
    · exact congrArg some read.reads.blocks.symm
    · exact congrArg some read.reads.labels.symm
  | @opening t loc read =>
    refine .inr ⟨.opening s.nextLabel, by simp [read.reads.items], ?_, rfl⟩
    exact congrArg some read.reads.blocks.symm
  | @otherwise t loc outer closed labels read block label =>
    refine .inr ⟨.otherwise closed s.nextLabel, by simp [read.reads.items], ?_, ?_⟩
    · simp [block, nextBlocks?, emit]
    · simp [label, nextLabels?, emit]
  | @closing t loc block outer closed labels read block label =>
    refine .inr ⟨.closing closed, by simp [read.reads.items], ?_, ?_⟩
    · simp [block, nextBlocks?, emit]
    · simp [label, nextLabels?, emit]
  | @function t f loc read label =>
    have items : t.program.items = s.program.items := read.reads.items
    refine .inr ⟨.function f, ?_, ?_, ?_⟩
    · exact (items_emit _ loc _).trans (congrArg (· ++ [Statement.function f]) items)
    · exact congrArg some read.reads.blocks.symm
    · simp [label, nextLabels?, emit]

/-- Every `else` and every end has its block. -/
theorem Move.openBlocks?_eq (h : s.Move t)
    (before : openBlocks? s.program.items = some s.blocks) :
    openBlocks? t.program.items = some t.blocks := by
  obtain ⟨items, blocks, -⟩ | ⟨st, items, blocks, -⟩ := h.stacks
  · rw [items, blocks, before]
  · rw [items, openBlocks?_snoc, before]
    exact blocks

/-- What is behind the statements so far, each `then` of them in its place: nothing unfinished but
the open blocks, or a condition that waits for its `then`. -/
inductive Progress (s : ParseState) : Bool → Prop where
  | between (h : Unfinished s.blocks s.labels s.program.items) : Progress s false
  | branch {outer : List Block} {before : List Statement} {c : ExprId}
      (h : Unfinished outer s.labels before) (blocks : s.blocks = .branch :: outer)
      (items : s.program.items = before ++ [.ifThen c]) : Progress s true
  | loop {outer : List Block} {before : List Statement} {c : ExprId}
      (h : Unfinished outer s.labels before) (blocks : s.blocks = .loop :: outer)
      (items : s.program.items = before ++ [.whileThen c]) : Progress s true

theorem progress_start {tokens : List Token} {w : Bool}
    (h : (Parse.start tokens).program.items.foldlM nextAwaits? false = some w) :
    (Parse.start tokens).Progress w := by
  cases h
  exact .between (.top .nil)

theorem Progress.congr {w : Bool} (h : s.Progress w) (items : t.program.items = s.program.items)
    (blocks : t.blocks = s.blocks) (labels : t.labels = s.labels) : t.Progress w := by
  cases h with
  | between h => exact .between (by rwa [items, blocks, labels])
  | branch h block last => exact .branch (labels ▸ h) (blocks.trans block) (items.trans last)
  | loop h block last => exact .loop (labels ▸ h) (blocks.trans block) (items.trans last)

/-- The `then` of a condition. -/
theorem Progress.opening {l : Nat} (h : s.Progress true) :
    Unfinished s.blocks (l :: s.labels) (s.program.items ++ [.opening l]) := by
  cases h with
  | branch h blocks items => simpa [blocks, items] using h.branch .nil
  | loop h blocks items => simpa [blocks, items] using h.loop .nil

/-- A statement with its `then` in place. -/
theorem Progress.step {st : Statement} (h : s.Progress st.isOpening)
    (items : t.program.items = s.program.items ++ [st])
    (blocks : nextBlocks? s.blocks st = some t.blocks)
    (labels : nextLabels? s.labels st = some t.labels) : t.Progress st.isCondition := by
  by_cases plain : st.isPlain
  · rw [nextBlocks?_of_isPlain plain] at blocks
    rw [nextLabels?_of_isPlain plain] at labels
    rw [Statement.isOpening_of_isPlain plain] at h
    rw [Statement.isCondition_of_isPlain plain]
    obtain ⟨h⟩ := h
    refine .between ?_
    rw [items, ← Option.some.inj blocks, ← Option.some.inj labels]
    exact h.append (.plain plain)
  cases st with
  | ifThen c =>
    obtain ⟨h⟩ := h
    exact .branch (Option.some.inj labels ▸ h) (Option.some.inj blocks).symm items
  | whileThen c =>
    obtain ⟨h⟩ := h
    exact .loop (Option.some.inj labels ▸ h) (Option.some.inj blocks).symm items
  | opening l =>
    refine .between ?_
    rw [items, ← Option.some.inj blocks, ← Option.some.inj labels]
    exact h.opening
  | otherwise closed opened =>
    obtain ⟨h⟩ := h
    obtain ⟨outer, block, blocks⟩ := nextBlocks?_otherwise.1 blocks
    obtain ⟨below, label, labels⟩ := nextLabels?_otherwise.1 labels
    rw [block, label] at h
    refine .between ?_
    rw [items, blocks, labels]
    exact h.alternative opened
  | closing l =>
    obtain ⟨h⟩ := h
    obtain ⟨block, blocks⟩ := nextBlocks?_closing.1 blocks
    rw [blocks, nextLabels?_closing.1 labels] at h
    refine .between ?_
    rw [items]
    exact h.closing
  | function f =>
    obtain ⟨h⟩ := h
    refine .between ?_
    rw [items, ← Option.some.inj blocks, ← Option.some.inj labels]
    exact h.function .nil
  | _ => exact absurd rfl plain

theorem Move.progress (h : s.Move t)
    (before : ∀ {w}, s.program.items.foldlM nextAwaits? false = some w → s.Progress w) {w : Bool}
    (inPlace : t.program.items.foldlM nextAwaits? false = some w) : t.Progress w := by
  obtain ⟨items, blocks, labels⟩ | ⟨st, items, blocks, labels⟩ := h.stacks
  · rw [items] at inPlace
    exact (before inPlace).congr items blocks labels
  · rw [items] at inPlace
    obtain ⟨awaited, rfl⟩ := foldlM_nextAwaits?_snoc.1 inPlace
    exact (before awaited).step items blocks labels

end ParseState

/-! ## Accepted programs -/

/-- **The blocks of an accepted program.** Every `else` continues an `if`, and every end closes a
block. If each condition has its `then`, one end for each open block is all that is missing of a
well nested program, and nothing is missing exactly if no block is open. -/
theorem blocks_of_parse {tokens : List Token} {p : Program} (h : parse tokens = .ok p) :
    ∃ blocks, openBlocks? p.items = some blocks ∧
      (ThensInPlace p.items → ∃ labels : List Nat, labels.length = blocks.length ∧
        Nested (p.items ++ labels.map .closing)) ∧
      (Nested p.items ↔ ThensInPlace p.items ∧ blocks = []) := by
  obtain ⟨s, follows, rfl⟩ := Parse.follows_of_parse h
  have blocks : openBlocks? s.program.items = some s.blocks :=
    follows.keeps (P := fun s => openBlocks? s.program.items = some s.blocks) rfl
      fun move => move.openBlocks?_eq
  have progress : ∀ {w}, s.program.items.foldlM nextAwaits? false = some w → s.Progress w :=
    follows.keeps (P := fun s => ∀ {w}, s.program.items.foldlM nextAwaits? false = some w →
      s.Progress w) ParseState.progress_start fun move before => move.progress before
  have nested (inPlace : ThensInPlace s.program.items) :
      s.labels.length = s.blocks.length ∧ Nested (s.program.items ++ s.labels.map .closing) := by
    obtain ⟨unfinished⟩ := progress inPlace
    exact ⟨unfinished.length_eq, unfinished.nested⟩
  refine ⟨s.blocks, blocks, fun inPlace => ⟨s.labels, nested inPlace⟩, ?_, ?_⟩
  · intro whole
    rw [whole.openBlocks?_eq] at blocks
    exact ⟨whole.thensInPlace, (Option.some.inj blocks).symm⟩
  · rintro ⟨inPlace, closed⟩
    obtain ⟨length, whole⟩ := nested inPlace
    rw [closed, List.length_nil, List.length_eq_zero_iff] at length
    simpa [length] using whole

/-- `if 1 then write 2 else while 3 then`: an `else` with its `if`, and two blocks that are open at
the end. -/
def unclosedTokens : List Token :=
  let kinds : List TokenKind := [
    .keyword .ifWord, .integer 1, .keyword .thenWord, .keyword .writeWord, .integer 2,
    .keyword .elseWord, .keyword .whileWord, .integer 3, .keyword .thenWord]
  kinds.map fun kind => ⟨kind, default⟩

theorem items_unclosed : (parse unclosedTokens).map Program.items = .ok [.ifThen 0, .opening 1,
    .native .write 1, .otherwise 1 2, .whileThen 2, .opening 3] := by
  decide +kernel

theorem blocks_of_parse_unclosed :
    ∃ p, parse unclosedTokens = .ok p ∧ ∃ blocks, openBlocks? p.items = some blocks ∧
      blocks = [.loop, .otherwise] ∧
      ∃ labels : List Nat, labels.length = 2 ∧ Nested (p.items ++ labels.map .closing) := by
  obtain ⟨p, parsed, items⟩ := map_eq_ok_iff.1 items_unclosed
  obtain ⟨blocks, opened, nested, -⟩ := blocks_of_parse parsed
  have known : openBlocks? p.items = some [.loop, .otherwise] := by
    rw [items]
    rfl
  have inPlace : ThensInPlace p.items := by
    rw [items]
    rfl
  obtain rfl : blocks = [.loop, .otherwise] := Option.some.inj (opened.symm.trans known)
  exact ⟨p, parsed, _, opened, rfl, nested inPlace⟩

/-- `then f(): int if 1 end end`: all blocks have their ends, but the `then` in front of the
function leaves its label to the end of the function. -/
def strayThenTokens : List Token :=
  let kinds : List TokenKind := [
    .keyword .thenWord, .ident "f", .mark .openParen, .mark .closeParen, .mark .colon, .type .int,
    .keyword .ifWord, .integer 1, .keyword .endWord, .keyword .endWord]
  kinds.map fun kind => ⟨kind, default⟩

/-- Programs that are not well nested are accepted, be it for a block that is open at the end or for
a `then` that is out of place. -/
theorem not_nested_of_parse :
    (∃ p, parse unclosedTokens = .ok p ∧ ThensInPlace p.items ∧ ¬ Nested p.items) ∧
    ∃ p, parse strayThenTokens = .ok p ∧ openBlocks? p.items = some [] ∧ ¬ Nested p.items := by
  have stray : (parse strayThenTokens).map Program.items = .ok [.opening 1,
      .function ⟨"f", [], .int, 2⟩, .ifThen 0, .closing 2, .closing 1] := by
    decide +kernel
  obtain ⟨p, parsed, items⟩ := map_eq_ok_iff.1 items_unclosed
  obtain ⟨q, parsed', items'⟩ := map_eq_ok_iff.1 stray
  refine ⟨⟨p, parsed, ?_, fun whole => ?_⟩, q, parsed', ?_, fun whole => ?_⟩
  · rw [items]
    rfl
  · have closed := whole.openBlocks?_eq
    rw [items] at closed
    exact absurd closed (by decide)
  · rw [items']
    rfl
  · have inPlace := whole.thensInPlace
    rw [items'] at inPlace
    exact absurd inPlace (by simp [ThensInPlace, nextAwaits?, Statement.isOpening])

end StackLang.Source
