import Mathlib.Logic.Equiv.Fintype
import StackLang.Proofs.Assembly.References

/-!
# Labels under other names

A label is named at the start of a line, behind a jump or behind `entrypoint`. What its name is does
not matter as long as different labels have different names: collecting the lines of a text and
looking its labels up commute with a permutation of all names, and names that are renamed without
a clash are renamed by such a permutation.
-/

namespace StackLang.Assembly

open Bytecode

/-! ## Names in lines -/

/-- Whether a name is that of a label, at the start of a line or behind the given token. -/
def namesLabel : Option Token → Bool
  | none => true
  | some (.instruction op) => op.isJump || op == .entrypoint
  | some _ => false

/-- The label that a token names, at the start of a line or behind the given token. -/
def Token.label? (before : Option Token) : Token → Option String
  | .name w => if namesLabel before then some w else none
  | _ => none

/-- The labels that tokens name. -/
def labelsOf : Option Token → List Token → List String
  | _, [] => []
  | before, t :: ts => (t.label? before).toList ++ labelsOf (some t) ts

/-- The token with its label renamed. -/
def Token.rename (ρ : String → String) (before : Option Token) (t : Token) : Token :=
  (t.label? before).elim t fun w => .name (ρ w)

/-- The tokens with their labels renamed. -/
def renameTokens (ρ : String → String) : Option Token → List Token → List Token
  | _, [] => []
  | before, t :: ts => t.rename ρ before :: renameTokens ρ (some t) ts

/-- The labels that a line names. -/
def Line.labelNames (l : Line) : List String := labelsOf none l.tokens

/-- The line with its labels renamed. -/
def Line.rename (ρ : String → String) (l : Line) : Line :=
  { l with tokens := renameTokens ρ none l.tokens }

variable {ρ σ : String → String} {before : Option Token} {t : Token} {ts : List Token}

theorem rename_name (ρ : String → String) (before : Option Token) (w : String) :
    (Token.name w).rename ρ before = .name (if namesLabel before then ρ w else w) := by
  unfold Token.rename Token.label?
  cases namesLabel before <;> rfl

/-- A token that is no name stays as it is. -/
theorem rename_of_ne (other : ∀ w, t ≠ .name w) : t.rename ρ before = t := by
  cases t with
  | name w => exact absurd rfl (other w)
  | _ => rfl

theorem renameTokens_congr (same : ∀ w ∈ labelsOf before ts, ρ w = σ w) :
    renameTokens ρ before ts = renameTokens σ before ts := by
  induction ts generalizing before with
  | nil => rfl
  | cons t ts ih =>
    rw [labelsOf, List.forall_mem_append] at same
    rw [renameTokens, renameTokens, ih same.2]
    congr 1
    unfold Token.rename
    cases label : t.label? before with
    | none => rfl
    | some w => rw [Option.elim_some, Option.elim_some, same.1 w (by rw [label]; exact .head _)]

/-- A token that is renamed is no instruction. -/
theorem namesLabel_rename (ρ : String → String) (before : Option Token) (t : Token) :
    namesLabel (some (t.rename ρ before)) = namesLabel (some t) := by
  cases t with
  | name w =>
    rw [rename_name]
    rfl
  | _ => rfl

theorem label?_congr {before' : Option Token} (same : namesLabel before' = namesLabel before)
    (t : Token) : t.label? before' = t.label? before := by
  cases t with
  | name w => simp only [Token.label?, same]
  | _ => rfl

theorem rename_rename (t : Token) :
    (t.rename ρ before).rename σ before = t.rename (σ ∘ ρ) before := by
  cases t with
  | name w =>
    rw [rename_name, rename_name, rename_name]
    cases namesLabel before <;> rfl
  | _ => rfl

theorem renameTokens_congr_before {before' : Option Token}
    (same : namesLabel before' = namesLabel before) (ts : List Token) :
    renameTokens ρ before' ts = renameTokens ρ before ts := by
  cases ts with
  | nil => rfl
  | cons t ts => rw [renameTokens, renameTokens, Token.rename, Token.rename, label?_congr same]

theorem renameTokens_renameTokens (before : Option Token) (ts : List Token) :
    renameTokens σ before (renameTokens ρ before ts) = renameTokens (σ ∘ ρ) before ts := by
  induction ts generalizing before with
  | nil => rfl
  | cons t ts ih =>
    simp only [renameTokens]
    rw [rename_rename, renameTokens_congr_before (namesLabel_rename ρ before t), ih]

theorem renameTokens_id (before : Option Token) (ts : List Token) :
    renameTokens id before ts = ts := by
  induction ts generalizing before with
  | nil => rfl
  | cons t ts ih =>
    rw [renameTokens, ih]
    congr 1
    cases t with
    | name w =>
      rw [rename_name]
      exact congrArg Token.name (ite_self w)
    | _ => rfl

/-- Tokens without names stay as they are. -/
theorem renameTokens_of_nameless (nameless : ∀ w, .name w ∉ ts) :
    renameTokens ρ before ts = ts := by
  induction ts generalizing before with
  | nil => rfl
  | cons t ts ih =>
    rw [renameTokens, ih fun w mem => nameless w (List.mem_cons_of_mem _ mem)]
    congr 1
    refine rename_of_ne fun w same => nameless w ?_
    rw [same]
    exact List.mem_cons_self

/-- Renaming makes no new tokens but names. -/
theorem mem_renameTokens (other : ∀ w, t ≠ .name w) (h : t ∈ renameTokens ρ before ts) :
    t ∈ ts := by
  induction ts generalizing before with
  | nil => exact h
  | cons u ts ih =>
    rw [renameTokens, List.mem_cons] at h
    obtain rfl | h := h
    · cases u with
      | name w =>
        rw [rename_name] at other
        exact absurd rfl (other _)
      | _ => exact List.mem_cons_self
    · exact List.mem_cons_of_mem _ (ih h)

/-! ## Names in statements -/

/-- The operand with its label renamed. -/
def Operand.rename (ρ : String → String) : Operand → Operand
  | .label name => .label (ρ name)
  | o => o

/-- The statement with its label renamed. -/
def Statement.rename (ρ : String → String) : Statement → Statement
  | .blank => .blank
  | .label name => .label (ρ name)
  | .entrypoint name => .entrypoint (ρ name)
  | .instruction op operand => .instruction op (operand.rename ρ)

theorem LiteralTokens.nameless {v : Value} (h : LiteralTokens ts v) : ∀ w, .name w ∉ ts := by
  intro w mem
  cases h <;> simp at mem

theorem OperandTokens.rename {op : Op} {operand : Operand} (h : OperandTokens op ts operand)
    (ρ : String → String) :
    OperandTokens op (renameTokens ρ (some (.instruction op)) ts) (operand.rename ρ) := by
  have unchanged {operand : Operand} (h : OperandTokens op ts operand)
      (nameless : ∀ w, .name w ∉ ts) (same : operand.rename ρ = operand) :
      OperandTokens op (renameTokens ρ (some (.instruction op)) ts) (operand.rename ρ) := by
    rw [renameTokens_of_nameless nameless, same]
    exact h
  cases h with
  | none h => exact unchanged (.none h) (by simp) rfl
  | register h => exact unchanged (.register h) (by simp) rfl
  | literal h => exact unchanged (.literal h) h.nameless rfl
  | text bytes => exact unchanged (.text bytes) (by simp) rfl
  | loadTop h => exact unchanged (.loadTop h) (by simp) rfl
  | load h literal =>
    refine unchanged (.load h literal) (fun w mem => ?_) rfl
    rcases List.mem_cons.1 mem with other | mem
    · cases other
    · exact literal.nameless w mem
  | index n h => exact unchanged (.index n h) (by simp) rfl
  | label name h =>
    have names : namesLabel (some (.instruction op)) := by simp [namesLabel, h]
    simp only [renameTokens, Token.rename, Token.label?, names, if_true, Option.elim_some]
    exact .label (ρ name) h

/-- A statement under other names. -/
theorem StatementTokens.rename {s : Statement} (h : StatementTokens ts s) (ρ : String → String) :
    StatementTokens (renameTokens ρ none ts) (s.rename ρ) := by
  cases h with
  | blank => exact .blank
  | label name => exact .label (ρ name)
  | entrypoint name => exact .entrypoint (ρ name)
  | instruction ne tokens => exact .instruction ne (tokens.rename ρ)

/-! ## Names in drafts -/

namespace Slot

/-- The slot with its label renamed. -/
def rename (ρ : String → String) (s : Slot) : Slot :=
  { s with target := s.target.map (Prod.map ρ id) }

end Slot

namespace Draft

/-- The draft with its labels renamed. -/
def rename (ρ : String → String) (d : Draft) : Draft where
  strings := d.strings
  slots := d.slots.map (Slot.rename ρ)
  labels := d.labels.map (Prod.map ρ id)
  entry := d.entry.map (Prod.map ρ id)

variable {d d' : Draft} {labels : List (String × Nat)} {name : String}

theorem rename_empty (ρ : String → String) : empty.rename ρ = empty := by
  simp [rename, empty, Slot.rename]

/-- A label is found under its other name, unless names clash. -/
theorem lookup_rename (injective : Function.Injective σ) :
    (labels.map (Prod.map σ id)).lookup (σ name) = labels.lookup name := by
  induction labels with
  | nil => rfl
  | cons use labels ih =>
    obtain ⟨other, index⟩ := use
    have same : (σ name == σ other) = (name == other) := by
      rw [Bool.eq_iff_iff, beq_iff_eq, beq_iff_eq, injective.eq_iff]
    rw [List.map_cons, List.lookup_cons, List.lookup_cons, ← ih]
    simp only [Prod.map_apply, id, same]

theorem add_rename (d : Draft) (line : Nat) (op : Op) (operand : Operand) :
    (d.rename σ).add line op (operand.rename σ) = (d.add line op operand).rename σ := by
  cases operand with
  | load r source => cases source <;> simp [add, Operand.rename, push, rename, Slot.rename]
  | _ => simp [add, Operand.rename, push, rename, Slot.rename]

theorem addStatement_rename (injective : Function.Injective σ) {line : Nat} {s : Statement}
    (h : d.addStatement line s = .ok d') :
    (d.rename σ).addStatement line (s.rename σ) = .ok (d'.rename σ) := by
  cases s with
  | blank =>
    cases h
    rfl
  | label name =>
    have known : ((d.rename σ).labels.lookup (σ name)).isSome = (d.labels.lookup name).isSome :=
      congrArg Option.isSome (lookup_rename injective)
    simp only [addStatement, Statement.rename, known] at h ⊢
    split at h
    · cases h
    · rename_i new
      cases h
      rw [if_neg new]
      simp [rename]
  | entrypoint name =>
    cases h
    rfl
  | instruction op operand =>
    cases h
    exact congrArg Except.ok (d.add_rename line op operand)

theorem addLine_rename (injective : Function.Injective σ) {l : Line} (clean : .newline ∉ l.tokens)
    (h : d.addLine l = .ok d') : (d.rename σ).addLine (l.rename σ) = .ok (d'.rename σ) := by
  obtain ⟨s, tokens, whole, added⟩ := (addLine_eq_ok_iff clean).1 h
  have clean' : .newline ∉ (l.rename σ).tokens := fun mem =>
    clean (mem_renameTokens (by simp) mem)
  refine (addLine_eq_ok_iff clean').2 ⟨s.rename σ, tokens.rename σ, whole, ?_⟩
  exact addStatement_rename injective added

theorem addLines_rename (injective : Function.Injective σ) {ls : List Line}
    (clean : ∀ l ∈ ls, .newline ∉ l.tokens) (h : ls.foldlM addLine d = .ok d') :
    (ls.map (Line.rename σ)).foldlM addLine (d.rename σ) = .ok (d'.rename σ) := by
  induction ls generalizing d with
  | nil =>
    cases h
    rfl
  | cons l ls ih =>
    rw [List.forall_mem_cons] at clean
    rw [List.foldlM_cons] at h
    obtain ⟨d1, first, rest⟩ := bind_eq_ok_iff.1 h
    rw [List.map_cons, List.foldlM_cons, addLine_rename injective clean.1 first]
    exact ih clean.2 rest

theorem resolve_rename (injective : Function.Injective σ) {line index : Nat}
    (h : resolve labels name line = .ok index) :
    resolve (labels.map (Prod.map σ id)) (σ name) line = .ok index := by
  rw [resolve_eq_ok_iff, lookup_rename injective]
  exact resolve_eq_ok_iff.1 h

theorem resolveSlot_rename (injective : Function.Injective σ) {s : Slot} {i : Instruction}
    (h : resolveSlot labels s = .ok i) :
    resolveSlot (labels.map (Prod.map σ id)) (s.rename σ) = .ok i := by
  obtain ⟨instruction, target⟩ := s
  cases target with
  | none => exact h
  | some use =>
    obtain ⟨name, line⟩ := use
    obtain ⟨index, found, last⟩ := bind_eq_ok_iff.1 h
    exact bind_eq_ok_iff.2 ⟨index, resolve_rename injective found, last⟩

theorem start_rename (injective : Function.Injective σ) {index : Nat}
    (h : d.start = .ok index) : (d.rename σ).start = .ok index := by
  obtain ⟨strings, slots, labels, entry⟩ := d
  cases entry with
  | none => exact h
  | some use =>
    obtain ⟨name, line⟩ := use
    have found : resolve labels name line = .ok index := h
    exact resolve_rename injective found

theorem mapM_resolveSlot_rename (injective : Function.Injective σ) {slots : List Slot}
    {code : List Instruction} (h : slots.mapM (resolveSlot labels) = .ok code) :
    (slots.map (Slot.rename σ)).mapM (resolveSlot (labels.map (Prod.map σ id))) = .ok code := by
  induction slots generalizing code with
  | nil => exact h
  | cons s slots ih =>
    rw [List.mapM_cons] at h
    obtain ⟨i, first, more⟩ := bind_eq_ok_iff.1 h
    obtain ⟨rest, others, last⟩ := bind_eq_ok_iff.1 more
    rw [List.map_cons, List.mapM_cons, resolveSlot_rename injective first, ok_bind, ih others]
    exact last

theorem finish_rename (injective : Function.Injective σ) {p : Program} (h : d.finish = .ok p) :
    (d.rename σ).finish = .ok p := by
  obtain ⟨resolved, started, strings⟩ := finish_eq_ok_iff.1 h
  refine finish_eq_ok_iff.2 ⟨?_, start_rename injective started, strings⟩
  rw [rename, Array.toList_map]
  exact mapM_resolveSlot_rename injective resolved

end Draft

/-! ## Lines under other names -/

theorem newline_not_mem_rename {ls : List Line} (clean : ∀ l ∈ ls, .newline ∉ l.tokens) :
    ∀ l ∈ ls.map (Line.rename ρ), .newline ∉ l.tokens := by
  rw [List.forall_mem_map]
  exact fun l inside mem => clean l inside (mem_renameTokens (by simp) mem)

theorem assembleLines_of_injective (injective : Function.Injective σ) {ls : List Line}
    (clean : ∀ l ∈ ls, .newline ∉ l.tokens) {p : Program} (h : assembleLines ls = .ok p) :
    assembleLines (ls.map (Line.rename σ)) = .ok p := by
  obtain ⟨d, collected, finished⟩ := bind_eq_ok_iff.1 h
  have renamed := Draft.addLines_rename injective clean collected
  rw [Draft.rename_empty] at renamed
  exact bind_eq_ok_iff.2 ⟨d.rename σ, renamed, Draft.finish_rename injective finished⟩

/-- A renaming of finitely many names without a clash belongs to a permutation of all names. -/
theorem exists_perm_of_injOn {names : List String} (injective : Set.InjOn ρ {w | w ∈ names}) :
    ∃ π : Equiv.Perm String, ∀ w ∈ names, π w = ρ w := by
  obtain ⟨π, agrees⟩ := Equiv.Perm.exists_extending_pair
    (fun w : {w // w ∈ names} => w.1) (fun w => ρ w.1) Subtype.val_injective
    (fun v w same => Subtype.ext (injective v.2 w.2 same))
  exact ⟨π, fun w mem => agrees ⟨w, mem⟩⟩

/-- Lines are assembled to the same program under other names. -/
theorem assembleLines_rename_iff {ls : List Line} (clean : ∀ l ∈ ls, .newline ∉ l.tokens)
    (injective : Set.InjOn ρ {w | w ∈ ls.flatMap Line.labelNames}) {p : Program} :
    assembleLines (ls.map (Line.rename ρ)) = .ok p ↔ assembleLines ls = .ok p := by
  obtain ⟨π, same⟩ := exists_perm_of_injOn injective
  have renamed : ls.map (Line.rename ρ) = ls.map (Line.rename π) := by
    refine List.map_congr_left fun l inside => ?_
    rw [Line.rename, Line.rename, renameTokens_congr fun w mem =>
      (same w (List.mem_flatMap.2 ⟨l, inside, mem⟩)).symm]
  rw [renamed]
  refine ⟨fun h => ?_, assembleLines_of_injective π.injective clean⟩
  -- The names are renamed back.
  have back := assembleLines_of_injective π.symm.injective (newline_not_mem_rename clean) h
  have undone : Line.rename π.symm ∘ Line.rename π = id := by
    funext l
    have identity : π.symm ∘ π = id := funext π.symm_apply_apply
    rw [Function.comp_apply, Line.rename, Line.rename, renameTokens_renameTokens, identity,
      renameTokens_id]
    rfl
  rwa [List.map_map, undone, List.map_id] at back

end StackLang.Assembly
