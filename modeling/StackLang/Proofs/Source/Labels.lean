import Mathlib.Data.List.Induction
import Mathlib.Data.List.Nodup
import StackLang.Proofs.Source.Blocks

/-!
# Labels of accepted programs

Functions, `then` and `else` take the next label off one counter, `else` and end give back the label
that was taken last. Blocks have no say in this, so it holds of every accepted program, those with a
`then` too many or too few among them: the labels are opened in the order 1, 2, 3 and so on, and the
label that is closed is the last one of those that are `pendingLabels` in front of it.
-/

namespace StackLang.Source

/-! ## Labels of statements -/

/-- The label that a statement opens. -/
def Statement.opens? : Statement → Option Nat
  | .opening l => some l
  | .otherwise _ opened => some opened
  | .function f => some f.label
  | _ => none

/-- The label that a statement closes. An `else` closes one before it opens one. -/
def Statement.closes? : Statement → Option Nat
  | .closing l => some l
  | .otherwise closed _ => some closed
  | _ => none

/-- The function that a statement declares. -/
def Statement.function? : Statement → Option Function
  | .function f => some f
  | _ => none

/-- The labels that statements open, in order. -/
def openedLabels (ss : List Statement) : List Nat := ss.filterMap Statement.opens?

/-- The labels that statements close, in order. -/
def closedLabels (ss : List Statement) : List Nat := ss.filterMap Statement.closes?

/-- The labels that are open behind statements, in the order in which they were opened. -/
def pendingLabels (ss : List Statement) : List Nat :=
  (openedLabels ss).filter fun l => l ∉ closedLabels ss

variable {ss : List Statement} {st : Statement}

theorem Statement.opens?_of_isPlain (h : st.isPlain) : st.opens? = none := by
  cases st <;> simp_all [Statement.isPlain, opens?]

theorem Statement.function?_of_isPlain (h : st.isPlain) : st.function? = none := by
  cases st <;> simp_all [Statement.isPlain, function?]

theorem openedLabels_snoc (ss : List Statement) (st : Statement) :
    openedLabels (ss ++ [st]) = openedLabels ss ++ st.opens?.toList := by
  unfold openedLabels
  rw [List.filterMap_append]
  cases opens : st.opens? <;> simp [opens]

theorem closedLabels_snoc (ss : List Statement) (st : Statement) :
    closedLabels (ss ++ [st]) = closedLabels ss ++ st.closes?.toList := by
  unfold closedLabels
  rw [List.filterMap_append]
  cases closes : st.closes? <;> simp [closes]

theorem filterMap_function?_snoc (ss : List Statement) (st : Statement) :
    (ss ++ [st]).filterMap Statement.function? =
      ss.filterMap Statement.function? ++ st.function?.toList := by
  rw [List.filterMap_append]
  cases declared : st.function? <;> simp [declared]

/-- The labels of functions are opened by their statements. -/
theorem functionLabels_sublist (ss : List Statement) :
    ((ss.filterMap Statement.function?).map Function.label).Sublist (openedLabels ss) := by
  induction ss with
  | nil => exact .slnil
  | cons st ss ih =>
    cases st with
    | function f => exact ih.cons_cons f.label
    | opening l => exact ih.cons l
    | otherwise closed opened => exact ih.cons opened
    | _ => exact ih

theorem mem_pendingLabels {l : Nat} :
    l ∈ pendingLabels ss ↔ l ∈ openedLabels ss ∧ l ∉ closedLabels ss := by
  simp [pendingLabels]

/-- A label that is new is pending behind the statement that opens it. -/
theorem pendingLabels_snoc
    (new : ∀ l, st.opens? = some l → l ∉ closedLabels ss ∧ st.closes? ≠ some l) :
    pendingLabels (ss ++ [st]) =
      (pendingLabels ss).filter (· ∉ st.closes?.toList) ++ st.opens?.toList := by
  have kept : st.opens?.toList.filter (· ∉ closedLabels ss ++ st.closes?.toList) =
      st.opens?.toList := by
    rw [List.filter_eq_self]
    intro l mem
    obtain ⟨fresh, other⟩ := new l (Option.mem_toList.1 mem)
    simpa [fresh] using other
  unfold pendingLabels
  rw [openedLabels_snoc, closedLabels_snoc, List.filter_append, kept, List.filter_filter]
  congr 2
  funext l
  simp [Bool.and_comm]

/-- Where a label is closed, it is the last one of those that are pending there. -/
def ClosesLatest (ss : List Statement) : Prop :=
  ∀ before st after l, ss = before ++ st :: after → st.closes? = some l →
    (pendingLabels before).getLast? = some l

theorem closesLatest_snoc :
    ClosesLatest (ss ++ [st]) ↔
      ClosesLatest ss ∧ ∀ l, st.closes? = some l → (pendingLabels ss).getLast? = some l := by
  constructor
  · intro h
    refine ⟨fun before st' after l split => ?_, fun l => h ss st [] l rfl⟩
    exact h before st' (after ++ [st]) l (by simp [split])
  · rintro ⟨h, last⟩ before st' after l split closes
    obtain rfl | ⟨after, end', rfl⟩ := after.eq_nil_or_concat
    · obtain ⟨rfl, same⟩ := List.append_inj' split rfl
      obtain rfl := List.singleton_inj.1 same
      exact last l closes
    · rw [List.concat_eq_append, ← List.cons_append, ← List.append_assoc] at split
      exact h before st' after l (List.append_inj' split rfl).1 closes

/-- Labels that are closed in turn have been opened, and none is closed twice. -/
theorem ClosesLatest.closedLabels (h : ClosesLatest ss) :
    closedLabels ss ⊆ openedLabels ss ∧ (closedLabels ss).Nodup := by
  induction ss using List.reverseRecOn with
  | nil => exact ⟨List.nil_subset _, List.nodup_nil⟩
  | append_singleton ss st ih =>
    obtain ⟨h, last⟩ := closesLatest_snoc.1 h
    obtain ⟨opened, nodup⟩ := ih h
    have pending {l : Nat} (mem : l ∈ st.closes?.toList) : l ∈ pendingLabels ss :=
      List.mem_of_getLast? (last l (Option.mem_toList.1 mem))
    rw [closedLabels_snoc, openedLabels_snoc]
    refine ⟨fun l mem => ?_, nodup.append (Option.toList_nodup _) fun l closed mem => ?_⟩
    · refine List.mem_append_left _ ?_
      obtain mem | mem := List.mem_append.1 mem
      · exact opened mem
      · exact (mem_pendingLabels.1 (pending mem)).1
    · exact (mem_pendingLabels.1 (pending mem)).2 closed

/-- What a statement does to the open labels: it takes one off and puts one on top, or does one of
both or neither. -/
theorem nextLabels?_eq_some_iff {labels labels' : List Nat} :
    nextLabels? labels st = some labels' ↔
      ∃ outer, labels = st.closes?.toList ++ outer ∧ labels' = st.opens?.toList ++ outer := by
  cases st with
  | otherwise closed opened => exact nextLabels?_otherwise
  | closing l => simpa [Statement.closes?, Statement.opens?] using nextLabels?_closing
  | _ => simp [nextLabels?, Statement.closes?, Statement.opens?, eq_comm]

/-! ## Along a parse -/

namespace ParseState

variable {s t : ParseState}

/-- What a statement does to the labels and the functions. If it emits nothing it changes neither,
and the label that it opens is the next one. -/
theorem Move.labels (h : s.Move t) :
    (t.program.items = s.program.items ∧ t.labels = s.labels ∧ t.nextLabel = s.nextLabel ∧
      t.program.functions = s.program.functions) ∨
    ∃ st, t.program.items = s.program.items ++ [st] ∧ nextLabels? s.labels st = some t.labels ∧
      t.nextLabel = s.nextLabel + st.opens?.toList.length ∧
      (∀ l, st.opens? = some l → l = s.nextLabel) ∧
      t.program.functions.toList = s.program.functions.toList ++ st.function?.toList := by
  -- A statement that declares no function leaves the functions as they are.
  have functions_of_eq {fs fs' : Array Function} {st : Statement} (declares : st.function? = none)
      (same : fs' = fs) : fs'.toList = fs.toList ++ st.function?.toList := by
    simp [declares, same]
  have opensNone {st : Statement} (opens : st.opens? = none) :
      ∀ l, st.opens? = some l → l = s.nextLabel := by
    simp [opens]
  cases h with
  | @plain t loc st read plain =>
    have opens : st.opens? = none := Statement.opens?_of_isPlain plain
    refine .inr ⟨st, by rw [items_emit, read.reads.items], ?_, ?_, opensNone opens, ?_⟩
    · exact (nextLabels?_of_isPlain plain _).trans (congrArg some read.reads.labels.symm)
    · rw [opens]
      exact read.reads.nextLabel
    · exact functions_of_eq (Statement.function?_of_isPlain plain) read.reads.functions
  | library read => exact .inl ⟨read.reads.items, read.reads.labels, read.reads.nextLabel, read.reads.functions⟩
  | globalVariable read => exact .inl ⟨read.reads.items, read.reads.labels, read.reads.nextLabel, read.reads.functions⟩
  | @localVariable t d loc read =>
    refine .inr ⟨.declare d, ?_, congrArg some read.reads.labels.symm, read.reads.nextLabel, opensNone rfl, ?_⟩
    · exact (items_emit t loc _).trans (congrArg (· ++ [Statement.declare d]) read.reads.items)
    · exact functions_of_eq rfl read.reads.functions
  | struct head read =>
    exact .inl ⟨read.reads.items.trans head.reads.items, read.reads.labels.trans head.reads.labels,
      read.reads.nextLabel.trans head.reads.nextLabel, read.reads.functions.trans head.reads.functions⟩
  | @branch t c loc read =>
    refine .inr ⟨.ifThen c, by simp [read.reads.items, ParseState.enter], congrArg some read.reads.labels.symm,
      read.reads.nextLabel, opensNone rfl, ?_⟩
    exact functions_of_eq rfl read.reads.functions
  | @loop t c loc read =>
    refine .inr ⟨.whileThen c, by simp [read.reads.items, ParseState.enter],
      congrArg some read.reads.labels.symm, read.reads.nextLabel, opensNone rfl, ?_⟩
    exact functions_of_eq rfl read.reads.functions
  | @opening t loc read =>
    refine .inr ⟨.opening s.nextLabel, by simp [read.reads.items], rfl, rfl,
      fun _ opens => (Option.some.inj opens).symm, ?_⟩
    exact functions_of_eq rfl read.reads.functions
  | @otherwise t loc outer closed labels read block label =>
    refine .inr ⟨.otherwise closed s.nextLabel, by simp [read.reads.items],
      nextLabels?_otherwise.2 ⟨labels, label, rfl⟩, rfl,
      fun _ opens => (Option.some.inj opens).symm, ?_⟩
    exact functions_of_eq rfl read.reads.functions
  | @closing t loc block outer closed labels read block label =>
    refine .inr ⟨.closing closed, by simp [read.reads.items], nextLabels?_closing.2 label,
      read.reads.nextLabel, opensNone rfl, ?_⟩
    exact functions_of_eq rfl read.reads.functions
  | @function t f loc read label =>
    have items : t.program.items = s.program.items := read.reads.items
    refine .inr ⟨.function f, ?_, ?_, rfl, fun _ opens => (Option.some.inj opens) ▸ label, ?_⟩
    · exact (items_emit _ loc _).trans (congrArg (· ++ [Statement.function f]) items)
    · simp [label, nextLabels?, emit]
    · have functions : t.program.functions = s.program.functions := read.reads.functions
      simp [emit, functions, Statement.function?]

/-- How the labels of a parse belong to its statements: the counter is behind the labels that were
opened, and the open ones are those that are pending. -/
structure Labelled (s : ParseState) : Prop where
  counted : s.nextLabel = (openedLabels s.program.items).length + 1
  opened : openedLabels s.program.items = List.range' 1 (openedLabels s.program.items).length
  pending : pendingLabels s.program.items = s.labels.reverse
  latest : ClosesLatest s.program.items
  functions : s.program.functions.toList = s.program.items.filterMap Statement.function?

theorem labelled_start (tokens : List Token) : (Parse.start tokens).Labelled where
  counted := rfl
  opened := rfl
  pending := rfl
  latest := by
    intro before st after l split
    exact absurd split (by simp [Parse.start, Program.items, Program.empty])
  functions := rfl

namespace Labelled

theorem lt_nextLabel (h : s.Labelled) {l : Nat} (opened : l ∈ openedLabels s.program.items) :
    l < s.nextLabel := by
  rw [h.opened, List.mem_range'_1] at opened
  have counted := h.counted
  omega

theorem nodup (h : s.Labelled) : (openedLabels s.program.items).Nodup := by
  rw [h.opened]
  exact List.nodup_range'

/-- Functions are told apart by their labels. -/
theorem nodup_functions (h : s.Labelled) : s.program.functions.toList.Nodup := by
  rw [h.functions]
  exact .of_map _ (h.nodup.sublist (functionLabels_sublist _))

end Labelled

theorem Move.labelled (h : s.Move t) (before : s.Labelled) : t.Labelled := by
  obtain ⟨items, labels, next, functions⟩ | ⟨st, items, labels, next, fresh, functions⟩ := h.labels
  · exact {
      counted := by rw [items, next, before.counted]
      opened := by rw [items, ← before.opened]
      pending := by rw [items, labels, before.pending]
      latest := items ▸ before.latest
      functions := by rw [items, functions, before.functions] }
  obtain ⟨outer, was, is⟩ := nextLabels?_eq_some_iff.1 labels
  have pending : pendingLabels s.program.items = outer.reverse ++ st.closes?.toList := by
    rw [before.pending, was]
    cases st.closes? <;> simp
  have latest : ∀ l, st.closes? = some l →
      (pendingLabels s.program.items).getLast? = some l := by
    intro l closes
    simp [pending, closes]
  have new : ∀ l, st.opens? = some l →
      l ∉ closedLabels s.program.items ∧ st.closes? ≠ some l := by
    rintro l opens
    refine ⟨fun closed => ?_, fun closes => ?_⟩
    · have := before.lt_nextLabel (before.latest.closedLabels.1 closed)
      exact absurd (fresh l opens) (Nat.ne_of_lt this)
    · have mem := List.mem_of_getLast? (latest l closes)
      have := before.lt_nextLabel (mem_pendingLabels.1 mem).1
      exact absurd (fresh l opens) (Nat.ne_of_lt this)
  have distinct : ∀ l ∈ outer.reverse, l ∉ st.closes?.toList := by
    have nodup : (pendingLabels s.program.items).Nodup := before.nodup.filter _
    rw [pending, List.nodup_append'] at nodup
    exact fun l mem => nodup.2.2 mem
  refine ⟨?_, ?_, ?_, ?_, ?_⟩
  · rw [items, openedLabels_snoc, next, before.counted, List.length_append]
    omega
  · rw [items, openedLabels_snoc, List.length_append, ← List.range'_append_1, ← before.opened]
    congr 1
    cases opens : st.opens? with
    | none => rfl
    | some l =>
      rw [fresh l opens, before.counted, Nat.add_comm]
      rfl
  · rw [items, pendingLabels_snoc new, pending, is, List.filter_append,
      List.filter_eq_self.2 (by simpa using distinct)]
    cases st.opens? <;> simp
  · rw [items]
    exact closesLatest_snoc.2 ⟨before.latest, latest⟩
  · rw [items, filterMap_function?_snoc, functions, before.functions]

end ParseState

theorem Parse.labelled_of_follows {tokens : List Token} {s : ParseState}
    (h : Follows (start tokens) s) : s.Labelled :=
  h.keeps (P := ParseState.Labelled) (ParseState.labelled_start tokens)
    fun move => move.labelled

/-! ## Accepted programs -/

/-- **The labels of an accepted program.** They are opened in order from 1 on, and each one that is
closed is the last one of those that are pending. The functions have the labels of their
statements. -/
theorem labels_of_parse {tokens : List Token} {p : Program} (h : parse tokens = .ok p) :
    (∃ n, openedLabels p.items = List.range' 1 n) ∧ ClosesLatest p.items ∧
      0 ∉ openedLabels p.items ∧ 0 ∉ closedLabels p.items ∧
      (openedLabels p.items).Nodup ∧ (closedLabels p.items).Nodup ∧
      p.items.filterMap Statement.function? = p.functions.toList := by
  obtain ⟨s, follows, rfl⟩ := Parse.follows_of_parse h
  have labelled := Parse.labelled_of_follows follows
  obtain ⟨closed, once⟩ := labelled.latest.closedLabels
  have positive : 0 ∉ openedLabels s.program.items := by
    rw [labelled.opened]
    simp
  exact ⟨⟨_, labelled.opened⟩, labelled.latest, positive, fun mem => positive (closed mem),
    labelled.nodup, once, labelled.functions.symm⟩

/-- `f(): int if 1 then then else end end`: the second `then` has no condition, and the `else` takes
its label. -/
def repeatedThenTokens : List Token :=
  let kinds : List TokenKind := [
    .ident "f", .mark .openParen, .mark .closeParen, .mark .colon, .type .int,
    .keyword .ifWord, .integer 1, .keyword .thenWord, .keyword .thenWord, .keyword .elseWord,
    .keyword .endWord, .keyword .endWord]
  kinds.map fun kind => ⟨kind, default⟩

theorem labels_of_parse_repeatedThen :
    ∃ p, parse repeatedThenTokens = .ok p ∧ openedLabels p.items = [1, 2, 3, 4] ∧
      closedLabels p.items = [3, 4, 2] ∧ ClosesLatest p.items ∧
      p.functions.toList = [⟨"f", [], .int, 1⟩] := by
  have run : (parse repeatedThenTokens).map Program.items = .ok [.function ⟨"f", [], .int, 1⟩,
      .ifThen 0, .opening 2, .opening 3, .otherwise 3 4, .closing 4, .closing 2] := by
    decide +kernel
  obtain ⟨p, parsed, items⟩ := map_eq_ok_iff.1 run
  obtain ⟨-, latest, -, -, -, -, functions⟩ := labels_of_parse parsed
  rw [items] at functions
  refine ⟨p, parsed, ?_, ?_, latest, functions.symm⟩
  · rw [items]
    rfl
  · rw [items]
    rfl

end StackLang.Source
