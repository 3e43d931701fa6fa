import StackLang.Proofs.Assembly.Acceptance

/-!
# Labels that no line defines

When all lines are read, the labels that they use are looked up one after the other: those of the
jumps, each of which waits in a slot of its own, and last the one entry label that the draft has
room for. The first that is not defined is the error, `assembleLines_eq_error_iff`. So no jump to
an unknown label is accepted; but a line that names the entry is forgotten when another one is
read, and `assembleLines_overridden` says that it might as well have been blank.
-/

namespace StackLang.Assembly

open Bytecode Text

/-- The program of the lines of a text. -/
def assembleLines (ls : List Line) : Except Error Program := do
  let d ← ls.foldlM Draft.addLine .empty
  d.finish

/-- The lines can be collected: each holds a statement and no label is defined twice. -/
def Collectable (ls : List Line) : Prop :=
  (∀ l ∈ ls, l.IsStatement) ∧ (definedLabels ls).Nodup

/-- The jump label of a line, with the number of the line. -/
def Line.jumpUse? (l : Line) : Option (String × Nat) := l.target?.map (·, l.number)

/-- The entry label of a line, with the number of the line. -/
def Line.entryUse? (l : Line) : Option (String × Nat) := l.entry?.map (·, l.number)

/-- The labels that are looked up once all lines are read, each with the number of the line that
uses it, in order: those of the jumps, and that of the last line with an entry. -/
def references (ls : List Line) : List (String × Nat) :=
  ls.filterMap Line.jumpUse? ++ (ls.filterMap Line.entryUse?).getLast?.toList

/-- The first of the labels looked up that no line defines. -/
def unknownReference? (ls : List Line) : Option (String × Nat) :=
  (references ls).find? fun r => r.1 ∉ definedLabels ls

theorem Line.jumpUse?_eq_some_iff {l : Line} {name : String} {line : Nat} :
    l.jumpUse? = some (name, line) ↔ l.target? = some name ∧ l.number = line := by
  simp [jumpUse?]

theorem Line.entryUse?_eq_some_iff {l : Line} {name : String} {line : Nat} :
    l.entryUse? = some (name, line) ↔ l.entry? = some name ∧ l.number = line := by
  simp [entryUse?]

theorem Line.isInstruction_of_target {l : Line} {name : String} (h : l.target? = some name) :
    l.isInstruction := by
  obtain ⟨op, tokens, jump⟩ := target?_eq_some_iff.1 h
  refine isInstruction_of_tokens tokens ?_
  rintro rfl
  cases jump

/-! ## Drafts -/

namespace Draft

/-- The labels that a draft waits for, in the order in which they are looked up. -/
def waits (d : Draft) : List (String × Nat) :=
  d.slots.toList.filterMap Slot.target ++ d.entry.toList

theorem resolve_eq_error {labels : List (String × Nat)} {name : String} {line : Nat} {e : Error}
    (h : resolve labels name line = .error e) :
    labels.lookup name = none ∧ e = ⟨line, .unknownLabel name⟩ := by
  unfold resolve at h
  split at h
  · cases h
  · cases h
    exact ⟨‹_›, rfl⟩

theorem resolveSlot_eq_error {labels : List (String × Nat)} {s : Slot} {e : Error}
    (h : resolveSlot labels s = .error e) :
    ∃ name line, s.target = some (name, line) ∧ labels.lookup name = none ∧
      e = ⟨line, .unknownLabel name⟩ := by
  unfold resolveSlot at h
  split at h
  · cases h
  · rename_i name line waits
    refine ⟨name, line, waits, resolve_eq_error ?_⟩
    cases resolved : resolve labels name line with
    | ok index =>
      rw [resolved] at h
      cases h
    | error e' =>
      rw [resolved] at h
      cases h
      rfl

theorem known_of_slots {labels : List (String × Nat)} {slots : List Slot}
    (passed : ∀ s ∈ slots, ∃ i, resolveSlot labels s = .ok i) :
    ∀ r ∈ slots.filterMap Slot.target, (labels.lookup r.1).isSome := by
  rintro ⟨name, line⟩ mem
  obtain ⟨s, inside, target⟩ := List.mem_filterMap.1 mem
  exact resolveSlot_isOk_iff.1 (passed s inside) name line target

theorem finish_eq (d : Draft) :
    d.finish = d.slots.toList.mapM (resolveSlot d.labels) >>= fun code =>
      d.start >>= fun entrypoint => .ok ⟨d.strings, entrypoint, code.toArray⟩ := by
  rw [← Array.toList_mapM]
  unfold finish start
  cases d.slots.mapM (resolveSlot d.labels) <;> cases d.entry <;> rfl

theorem find?_of_first {labels : List (String × Nat)} {known more : List (String × Nat)}
    {name : String} {line : Nat} (passed : ∀ r ∈ known, (labels.lookup r.1).isSome)
    (unknown : labels.lookup name = none) :
    (known ++ (name, line) :: more).find? (fun r => (labels.lookup r.1).isNone) =
      some (name, line) := by
  refine List.find?_eq_some_iff_append.2 ⟨by simp [unknown], known, more, rfl, fun r mem => ?_⟩
  rw [Option.not_isNone]
  exact passed r mem

/-- A draft that cannot be finished waits for a label that is unknown, and the first of these is
the error. -/
theorem find?_waits_of_finish {d : Draft} {e : Error} (h : d.finish = .error e) :
    ∃ r, d.waits.find? (fun r => (d.labels.lookup r.1).isNone) = some r ∧
      e = ⟨r.2, .unknownLabel r.1⟩ := by
  rw [finish_eq] at h
  unfold waits
  cases resolved : d.slots.toList.mapM (resolveSlot d.labels) with
  | error e' =>
    rw [resolved] at h
    cases h
    obtain ⟨above, s, below, split, passed, failed⟩ := exists_of_mapM_eq_error resolved
    obtain ⟨name, line, target, unknown, rfl⟩ := resolveSlot_eq_error failed
    refine ⟨(name, line), ?_, rfl⟩
    rw [split, List.filterMap_append, List.filterMap_cons_some target, List.append_assoc,
      List.cons_append]
    exact find?_of_first (known_of_slots passed) unknown
  | ok code =>
    rw [resolved, ok_bind] at h
    have passed := known_of_slots (exists_mapM_eq_ok_iff.1 ⟨code, resolved⟩)
    unfold start at h
    cases entry : d.entry with
    | none =>
      rw [entry] at h
      cases h
    | some use =>
      obtain ⟨name, line⟩ := use
      rw [entry] at h
      cases started : resolve d.labels name line with
      | ok index =>
        simp only [started] at h
        cases h
      | error e' =>
        simp only [started] at h
        cases h
        obtain ⟨unknown, rfl⟩ := resolve_eq_error started
        exact ⟨(name, line), find?_of_first passed unknown, rfl⟩

/-- A draft is finished, or the first unknown label that it waits for is the error. -/
theorem finish_eq_error_iff {d : Draft} {e : Error} :
    d.finish = .error e ↔
      ∃ r, d.waits.find? (fun r => (d.labels.lookup r.1).isNone) = some r ∧
        e = ⟨r.2, .unknownLabel r.1⟩ := by
  refine ⟨find?_waits_of_finish, ?_⟩
  rintro ⟨r, first, rfl⟩
  cases finished : d.finish with
  | error e =>
    obtain ⟨r', first', rfl⟩ := find?_waits_of_finish finished
    rw [Option.some.inj (first.symm.trans first')]
  | ok p =>
    obtain ⟨slots, entry⟩ := finish_isOk_iff.1 ⟨p, finished⟩
    have unknown := List.find?_some first
    rw [Option.isNone_iff_eq_none] at unknown
    have known : (d.labels.lookup r.1).isSome := by
      obtain waiting | last := List.mem_append.1 (List.mem_of_find?_eq_some first)
      · obtain ⟨s, inside, target⟩ := List.mem_filterMap.1 waiting
        exact slots s inside r.1 r.2 target
      · rw [Option.mem_toList] at last
        exact entry r.1 (by rw [last]; rfl)
    rw [unknown] at known
    cases known

/-! ## The entry of a draft -/

@[simp] theorem add_with_entry (d : Draft) (entry : Option (String × Nat)) (line : Nat) (op : Op)
    (operand : Operand) :
    Draft.add { d with entry } line op operand = { d.add line op operand with entry } := by
  cases operand with
  | load r source => cases source <;> rfl
  | _ => rfl

theorem addLine_of_error {l : Line} {e : Error} (d : Draft)
    (read : Reader.statement.run l = .error e) : d.addLine l = .error e := by
  unfold addLine
  rw [read]
  rfl

theorem addLine_of_blank {l rest : Line} (d : Draft)
    (read : Reader.statement.run l = .ok (.blank, rest)) : d.addLine l = .ok d := by
  unfold addLine
  rw [read]
  rfl

theorem addLine_of_statement {l rest : Line} {s : Statement} (d : Draft)
    (read : Reader.statement.run l = .ok (s, rest)) (ne : s ≠ .blank) :
    d.addLine l = d.addStatement l.number s >>= fun d' =>
      (Reader.finish.run rest).map fun _ => d' := by
  unfold addLine
  rw [read, ok_bind]
  dsimp only
  cases d.addStatement l.number s with
  | error e => rfl
  | ok d' =>
    rw [ok_bind, ok_bind, if_neg ne]
    cases Reader.finish.run rest <;> rfl

/-- What a line adds does not depend on the entry, which stays if the line names none. -/
theorem addLine_with_entry (d : Draft) (entry : Option (String × Nat)) {l : Line}
    (clean : .newline ∉ l.tokens) :
    Draft.addLine { d with entry } l =
      (d.addLine l).map fun d' => { d' with entry := l.entryUse?.or entry } := by
  cases read : Reader.statement.run l with
  | error e =>
    rw [addLine_of_error _ read, addLine_of_error _ read]
    rfl
  | ok result =>
    obtain ⟨s, rest⟩ := result
    obtain ⟨rfl, tokens, -⟩ | ⟨ne, ts, tokens, rfl⟩ := Reader.statementTokens_of_run read clean
    · have none : l.entryUse? = none := by rw [Line.entryUse?, Line.entry?, tokens]; rfl
      rw [addLine_of_blank _ read, addLine_of_blank _ read, none]
      rfl
    rw [addLine_of_statement _ read ne, addLine_of_statement _ read ne]
    cases tokens with
    | blank => exact absurd rfl ne
    | label name =>
      have none : (rest.before [.name name, .colon]).entryUse? = none := rfl
      rw [none]
      unfold addStatement
      dsimp only
      split
      · rfl
      · cases Reader.finish.run rest <;> rfl
    | entrypoint name =>
      cases finished : Reader.finish.run rest with
      | error e => rfl
      | ok u =>
        rw [Line.tokens_before, List.mem_append, not_or] at clean
        obtain ⟨last, -⟩ := (Reader.run_finish_iff clean.2).1 ⟨u, finished⟩
        have use : (rest.before [.instruction .entrypoint, .name name]).entryUse? =
            some (name, rest.number) := by
          rw [Line.entryUse?, Line.entry?, Line.tokens_before, last]
          rfl
        rw [use]
        rfl
    | @instruction op ts operand isInstruction written =>
      have none : (rest.before (.instruction op :: ts)).entryUse? = none := by
        rw [Line.entryUse?, Line.entry?_of_instruction rfl isInstruction]
        rfl
      rw [none]
      unfold addStatement
      dsimp only
      rw [add_with_entry]
      cases Reader.finish.run rest <;> rfl

/-- The entry of a draft is that of the last line with one. -/
theorem entry_of_addLines {ls : List Line} {d : Draft} (clean : ∀ l ∈ ls, .newline ∉ l.tokens)
    (collected : ls.foldlM addLine .empty = .ok d) :
    d.entry = (ls.filterMap Line.entryUse?).getLast? := by
  induction ls using List.reverseRecOn generalizing d with
  | nil =>
    cases collected
    rfl
  | append_singleton ls l ih =>
    rw [List.forall_mem_append] at clean
    obtain ⟨d1, before, added⟩ := foldlM_snoc_eq_ok_iff.1 collected
    have same := addLine_with_entry d1 d1.entry (clean.2 l List.mem_cons_self)
    rw [show { d1 with entry := d1.entry } = d1 from rfl, added] at same
    have entry := congrArg Draft.entry (Except.ok.inj same)
    rw [entry, ih clean.1 before, List.filterMap_append, List.getLast?_append]
    cases use : l.entryUse? <;> simp [use]

/-- The entry of a draft does not matter where a line below names one. -/
theorem foldlM_with_entry {ls : List Line} (clean : ∀ l ∈ ls, .newline ∉ l.tokens)
    (again : (entryLabel? ls).isSome) (d : Draft) (entry : Option (String × Nat)) :
    ls.foldlM addLine { d with entry } = ls.foldlM addLine d := by
  induction ls generalizing d entry with
  | nil => cases again
  | cons l ls ih =>
    rw [List.forall_mem_cons] at clean
    have first := addLine_with_entry d entry clean.1
    have same := addLine_with_entry d d.entry clean.1
    rw [show { d with entry := d.entry } = d from rfl] at same
    rw [List.foldlM_cons, List.foldlM_cons]
    cases added : d.addLine l with
    | error e =>
      rw [added] at first
      rw [first]
      rfl
    | ok d' =>
      rw [added] at first same
      rw [first]
      cases use : l.entryUse? with
      | some u =>
        rw [use] at same
        change ls.foldlM addLine { d' with entry := some u } = ls.foldlM addLine d'
        exact congrArg (ls.foldlM addLine ·) (Except.ok.inj same).symm
      | none =>
        have plain : l.entry? = none := Option.map_eq_none_iff.1 use
        rw [entryLabel?, List.filterMap_cons_none plain] at again
        exact ih clean.2 again d' entry

/-! ## The labels of a collected draft -/

namespace Collects

variable {ls : List Line} {d : Draft}

theorem filterMap_target_of_forall₂ {strings : List (List UInt8)} {ls : List Line}
    {slots : List Slot} (each : List.Forall₂ (Slot.Says strings) ls slots) :
    slots.filterMap Slot.target = ls.filterMap Line.jumpUse? := by
  induction each with
  | nil => rfl
  | cons said _ ih => rw [List.filterMap_cons, List.filterMap_cons, said.target_eq, ih]; rfl

/-- What a collected draft waits for is what its lines refer to. -/
theorem waits_eq (h : d.Collects ls) (clean : ∀ l ∈ ls, .newline ∉ l.tokens)
    (collected : ls.foldlM Draft.addLine .empty = .ok d) : d.waits = references ls := by
  obtain ⟨slots, all, each⟩ := h.code
  have jumps : (ls.filter Line.isInstruction).filterMap Line.jumpUse? =
      ls.filterMap Line.jumpUse? := by
    rw [List.filterMap_filter]
    refine List.filterMap_congr fun l _ => ?_
    cases use : l.jumpUse? with
    | none => exact ite_self none
    | some u => rw [if_pos (Line.isInstruction_of_target (Line.jumpUse?_eq_some_iff.1 use).1)]
  rw [waits, references, all, List.filterMap_cons_none rfl, filterMap_target_of_forall₂ each,
    jumps, entry_of_addLines clean collected]

theorem find?_waits_eq (h : d.Collects ls) (clean : ∀ l ∈ ls, .newline ∉ l.tokens)
    (collected : ls.foldlM Draft.addLine .empty = .ok d) :
    d.waits.find? (fun r => (d.labels.lookup r.1).isNone) = unknownReference? ls := by
  rw [h.waits_eq clean collected, unknownReference?]
  congr 1
  funext r
  rw [Bool.eq_iff_iff, decide_eq_true_iff, ← h.isSome_lookup_iff, Option.isNone_iff_eq_none,
    Option.not_isSome_iff_eq_none]

end Collects

end Draft

/-! ## Texts -/

section Lines

variable {ls : List Line}

theorem collectable_iff (clean : ∀ l ∈ ls, .newline ∉ l.tokens) :
    Collectable ls ↔ ∃ d, ls.foldlM Draft.addLine .empty = .ok d :=
  (Draft.addLines_isOk_iff clean).symm

/-- Lines that can be collected are assembled unless a label that they refer to is unknown, and
the first of these is the error. -/
theorem assembleLines_eq_error_iff (clean : ∀ l ∈ ls, .newline ∉ l.tokens)
    (collectable : Collectable ls) {e : Error} :
    assembleLines ls = .error e ↔
      ∃ r, unknownReference? ls = some r ∧ e = ⟨r.2, .unknownLabel r.1⟩ := by
  obtain ⟨d, collected⟩ := (collectable_iff clean).1 collectable
  have collects := Draft.collects_of_addLines clean collected
  rw [assembleLines, collected, ok_bind, Draft.finish_eq_error_iff,
    collects.find?_waits_eq clean collected]

/-- The line without its statement. -/
def Line.blanked (l : Line) : Line := { l with tokens := [] }

/-- A line with an entry sets the entry of a draft and does nothing else. -/
theorem Draft.addLine_of_entry (d : Draft) {l : Line} (h : l.entry?.isSome) :
    d.addLine l = (d.addLine l.blanked).map fun d' => { d' with entry := l.entryUse? } := by
  obtain ⟨name, entry⟩ := Option.isSome_iff_exists.1 h
  obtain ⟨number, tokens, ending⟩ := l
  obtain rfl : tokens = [.instruction .entrypoint, .name name] := by
    unfold Line.entry? at entry
    split at entry
    · cases entry
      assumption
    · cases entry
  cases ending <;> rfl

/-- A line with an entry that a line below overrides might as well be blank. -/
theorem assembleLines_overridden {above below : List Line} {l : Line}
    (clean : ∀ m ∈ below, .newline ∉ m.tokens) (entry : l.entry?.isSome)
    (again : (entryLabel? below).isSome) :
    assembleLines (above ++ l :: below) = assembleLines (above ++ l.blanked :: below) := by
  have same : (above ++ l :: below).foldlM Draft.addLine .empty =
      (above ++ l.blanked :: below).foldlM Draft.addLine .empty := by
    rw [List.foldlM_append, List.foldlM_append]
    congr 1
    funext d
    rw [List.foldlM_cons, List.foldlM_cons, d.addLine_of_entry entry]
    cases d.addLine l.blanked with
    | error e => rfl
    | ok d' => exact Draft.foldlM_with_entry clean again d' l.entryUse?
  rw [assembleLines, assembleLines, same]

end Lines

/-- The line holds a jump to the label, whatever stands behind it. -/
def Line.JumpsTo (l : Line) (name : String) : Prop :=
  ∃ op more, op.isJump ∧ l.tokens = .instruction op :: .name name :: more

/-- A statement that is a jump to a label holds nothing else. -/
theorem Line.JumpsTo.target? {l : Line} {name : String} (h : l.JumpsTo name)
    (statement : l.IsStatement) : l.target? = some name := by
  obtain ⟨op, more, jump, tokens⟩ := h
  obtain ⟨-, s, written⟩ := statement
  refine target?_eq_some_iff.2 ⟨op, ?_, jump⟩
  rw [tokens] at written ⊢
  cases written with
  | entrypoint => cases jump
  | instruction ne operand =>
    obtain ⟨n, same⟩ | ⟨other, same⟩ := operand.cases_of_isJump jump
    · cases same
    · cases same
      rfl

/-- **Labels that no line defines.** A text that jumps to one, or whose last line with an entry
names one, does not assemble; if all its lines can be collected, the error is the first reference
to such a label. But a line with an entry that one below overrides might as well be blank, whatever
label it names. -/
theorem assemble_unknown_label {text : String} {ls : List Line}
    (read : lines (Utf8.encode text.toList) = ls) :
    (∀ l ∈ ls, ∀ name, l.JumpsTo name → name ∉ definedLabels ls →
      ∃ e, assemble text = .error e) ∧
    (∀ name, entryLabel? ls = some name → name ∉ definedLabels ls →
      ∃ e, assemble text = .error e) ∧
    (Collectable ls → ∀ e, assemble text = .error e ↔
      ∃ r, unknownReference? ls = some r ∧ e = ⟨r.2, .unknownLabel r.1⟩) ∧
    ∀ above l below, ls = above ++ l :: below → l.entry?.isSome → (entryLabel? below).isSome →
      assemble text = assembleLines (above ++ l.blanked :: below) := by
  subst read
  have clean := @newline_not_mem_lines (Utf8.encode text.toList)
  have formed {p} (assembled : assemble text = .ok p) := assembleBytes_isOk_iff.1 ⟨p, assembled⟩
  refine ⟨?_, ?_, ?_, ?_⟩
  · intro l mem name jumps unknown
    cases assembled : assemble text with
    | error e => exact ⟨e, rfl⟩
    | ok p =>
      have formed := formed assembled
      exact absurd (formed.jumps l mem name (jumps.target? (formed.lines l mem))) unknown
  · intro name last unknown
    cases assembled : assemble text with
    | error e => exact ⟨e, rfl⟩
    | ok p => exact absurd ((formed assembled).entry name last) unknown
  · intro collectable e
    exact assembleLines_eq_error_iff clean collectable
  · intro above l below split entry again
    rw [split] at clean
    have below_clean := fun m mem => clean m (List.mem_append_right _ (List.mem_cons_of_mem _ mem))
    rw [← assembleLines_overridden below_clean entry again, ← split]
    rfl

/-- Two lines with an entry and a jump, of which the first and the last go to unknown labels. -/
def lostLines : List Line :=
  [⟨1, [.instruction .entrypoint, .name "nowhere"], .newline⟩,
    ⟨2, [.instruction .entrypoint, .name "main"], .newline⟩,
    ⟨3, [.name "main", .colon], .newline⟩,
    ⟨4, [.instruction .jmp, .name "lost"], .endOfText⟩]

/-- The text of `lostLines`. -/
def lostText : String := "entrypoint nowhere\nentrypoint main\nmain:\n  jmp lost"

theorem assemble_unknown_label_lost :
    lines (Utf8.encode lostText.toList) = lostLines ∧ Collectable lostLines ∧
      unknownReference? lostLines = some ("lost", 4) ∧
      assemble lostText = .error ⟨4, .unknownLabel "lost"⟩ := by
  have read : lines (Utf8.encode lostText.toList) = lostLines := by decide +kernel
  have clean : ∀ l ∈ lostLines, .newline ∉ l.tokens := by decide
  have collectable : Collectable lostLines := (collectable_iff clean).2 ⟨_, rfl⟩
  have first : unknownReference? lostLines = some ("lost", 4) := by decide +kernel
  have unknown := (assemble_unknown_label read).2.2.1 collectable
  exact ⟨read, collectable, first, (unknown _).2 ⟨_, first, rfl⟩⟩

/-- A text with a line that names an entry which no line defines. -/
def overriddenText : String := "entrypoint nowhere\nentrypoint main\nmain:\n  halt"

/-- An unknown entry label is not always an error. -/
theorem assemble_unknown_entry :
    ∃ l ∈ lines (Utf8.encode overriddenText.toList), l.entry? = some "nowhere" ∧
      "nowhere" ∉ definedLabels (lines (Utf8.encode overriddenText.toList)) ∧
      assemble overriddenText =
        .ok { entrypoint := 1, code := #[{ op := .nop }, { op := .halt }] } := by
  refine ⟨⟨1, [.instruction .entrypoint, .name "nowhere"], .newline⟩, ?_, rfl, ?_, ?_⟩
  all_goals decide +kernel

end StackLang.Assembly
