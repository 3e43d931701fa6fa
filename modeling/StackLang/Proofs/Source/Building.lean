import Mathlib.Logic.Relation
import StackLang.Proofs.Results
import StackLang.Proofs.Source.Reading
import StackLang.Proofs.Source.Typing
import StackLang.Source.Parse.Statement

/-!
# Steps that build expressions

All that the parts of a statement do to a parse is done in steps of three kinds, `BuildStep`: tokens
are taken, an expression is made of pending ones and is pending itself, and pending expressions are
put in another order or dropped. `ParseState.Builds` is a row of such steps. What each kind keeps is
kept by every part of a statement: the program grows, names mean the same, and the forest stays one.
So the parsers are gone through once, to find the steps that they make, `Parse.Builds`.
-/

namespace StackLang.Source

/-! ## Rows of steps -/

namespace ParseState

/-- A step of the parse in front, whose pending expressions are listed behind it. -/
inductive BuildStep : ParseState × List ExprId → ParseState × List ExprId → Prop where
  | take {s : ParseState} {ids : List ExprId} {rest : List Token} (sub : rest <:+ s.rest) :
      BuildStep (s, ids) ({ s with rest }, ids)
  | offer {s : ParseState} {ids offered : List ExprId} (sub : offered.Subperm ids) :
      BuildStep (s, ids) (s, offered)
  /-- What the expression names is known, and its operands or arguments have been checked. -/
  | make {s : ParseState} {ids : List ExprId} (e : Expr) (checked : s.program.Checked e.kind)
      (known : e.kind.Resolves s.program s.function?) :
      BuildStep (s, e.kind.children ++ ids)
        ({ s with program := (s.program.withForeign e.kind.declared).push e },
          s.program.exprs.size :: ids)

/-- The steps from `s` to `t` take up the expressions `taken` and hand on `given`. -/
def Builds (s : ParseState) (taken : List ExprId) (t : ParseState) (given : List ExprId) : Prop :=
  Relation.ReflTransGen BuildStep (s, taken) (t, given)

variable {s t u : ParseState} {taken given given' ids : List ExprId}
  {a b : ParseState × List ExprId}

namespace Builds

theorem refl (s : ParseState) (ids : List ExprId) : s.Builds ids s ids := Relation.ReflTransGen.refl

theorem trans (h : s.Builds taken t given) (h' : t.Builds given u given') :
    s.Builds taken u given' := Relation.ReflTransGen.trans h h'

theorem take {rest : List Token} (sub : rest <:+ s.rest) (ids : List ExprId) :
    s.Builds ids { s with rest } ids := .single (.take sub)

theorem offer {offered : List ExprId} (s : ParseState) (sub : offered.Subperm ids) :
    s.Builds ids s offered := .single (.offer sub)

theorem make (e : Expr) (checked : s.program.Checked e.kind)
    (known : e.kind.Resolves s.program s.function?) :
    s.Builds e.kind.children
      { s with program := (s.program.withForeign e.kind.declared).push e }
      [s.program.exprs.size] := by
  have step : BuildStep (s, e.kind.children ++ []) _ := .make e checked known
  rw [List.append_nil] at step
  exact .single step

/-- A relation that the steps are in, and that goes on from step to step. -/
theorem lift {R : ParseState → ParseState → Prop} (refl : ∀ s, R s s)
    (trans : ∀ {s t u}, R s t → R t u → R s u) (step : ∀ {a b}, BuildStep a b → R a.1 b.1)
    (h : s.Builds taken t given) : R s t := by
  have all {a b : ParseState × List ExprId} (h : Relation.ReflTransGen BuildStep a b) :
      R a.1 b.1 := by
    induction h with
    | refl => exact refl _
    | tail _ last ih => exact trans ih (step last)
  exact all h

/-- What each step keeps. -/
theorem keeps {P : ParseState → List ExprId → Prop}
    (step : ∀ {a b}, BuildStep a b → P a.1 a.2 → P b.1 b.2) (h : s.Builds taken t given)
    (start : P s taken) : P t given := by
  have all {a b : ParseState × List ExprId} (h : Relation.ReflTransGen BuildStep a b)
      (start : P a.1 a.2) : P b.1 b.2 := by
    induction h with
    | refl => exact start
    | tail _ last ih => exact step last ih
  exact all h start

end Builds

/-! ## What the steps keep -/

theorem BuildStep.reads (h : BuildStep a b) : a.1.Reads b.1 := by
  cases h with
  | take sub => exact .take sub
  | offer => exact .refl _
  | make e checked known => exact .push known

theorem BuildStep.grows (h : BuildStep a b) : a.1.program.Grows b.1.program := by
  cases h with
  | take | offer => exact .refl _
  | make e => exact .push _ e

theorem BuildStep.built (h : BuildStep a b) (built : a.1.program.Built a.2) :
    b.1.program.Built b.2 := by
  cases h with
  | take => exact built
  | offer sub => exact built.weaken sub
  | @make s ids e checked =>
    have known : (s.program.withForeign e.kind.declared).Knows s.program :=
      .of_isPrefix List.prefix_rfl (by simp [Program.withForeign])
    have declared : (s.program.withForeign e.kind.declared).Built (e.kind.children ++ ids) :=
      .place [] built rfl (.refl _) known
    exact declared.push e.kind (checked.congr known fun _ _ => rfl)

/-- What is pending is there. -/
theorem BuildStep.bounded (h : BuildStep a b) (bounded : ∀ id ∈ a.2, id < a.1.program.exprs.size) :
    ∀ id ∈ b.2, id < b.1.program.exprs.size := by
  cases h with
  | take => exact bounded
  | offer sub => exact fun id mem => bounded id (sub.subset mem)
  | make e =>
    intro id mem
    rw [Program.size_push]
    rcases List.mem_cons.1 mem with rfl | mem
    · exact Nat.lt_succ_self _
    · exact Nat.lt_succ_of_lt (bounded id (List.mem_append_right _ mem))

/-- Other pending expressions stay pending. -/
theorem BuildStep.frame (h : BuildStep a b) (more : List ExprId) :
    BuildStep (a.1, a.2 ++ more) (b.1, b.2 ++ more) := by
  cases h with
  | take sub => exact .take sub
  | offer sub => exact .offer ((List.subperm_append_right more).2 sub)
  | make e checked known =>
    rw [List.append_assoc]
    exact .make e checked known

namespace Builds

theorem reads (h : s.Builds taken t given) : s.Reads t :=
  h.lift .refl .trans BuildStep.reads

theorem grows (h : s.Builds taken t given) : s.program.Grows t.program :=
  h.lift (R := fun s t => s.program.Grows t.program) (fun _ => .refl _) .trans BuildStep.grows

theorem built (h : s.Builds taken t given) (built : s.program.Built taken) :
    t.program.Built given :=
  h.keeps (P := fun s ids => s.program.Built ids) BuildStep.built built

theorem bounded (h : s.Builds taken t given) (bounded : ∀ id ∈ taken, id < s.program.exprs.size) :
    ∀ id ∈ given, id < t.program.exprs.size :=
  h.keeps (P := fun s ids => ∀ id ∈ ids, id < s.program.exprs.size) BuildStep.bounded bounded

theorem frame (h : s.Builds taken t given) (more : List ExprId) :
    s.Builds (taken ++ more) t (given ++ more) :=
  Relation.ReflTransGen.lift (fun a : ParseState × List ExprId => (a.1, a.2 ++ more))
    (fun _ _ step => BuildStep.frame step more) _ _ h

/-- What has passed its checks stays as it is. -/
theorem sound (h : s.Builds taken t given) (sound : s.program.Sound (taken ++ ids)) :
    t.program.Sound (given ++ ids) :=
  ⟨(h.frame ids).built sound.built, sound.stated_of_grows h.grows⟩

end Builds

end ParseState

namespace Parse

open ParseState

variable {α β : Type}

/-! ## Parsers that take tokens only -/

/-- The step takes tokens and changes nothing else. -/
def Keeps (x : Parse α) : Prop :=
  ∀ ⦃s a t⦄, x.run s = .ok (a, t) → ∃ rest, rest <:+ s.rest ∧ t = { s with rest }

theorem keeps_pure (a : α) : Keeps (pure a : Parse α) := by
  intro s b t run
  cases run
  exact ⟨s.rest, List.suffix_rfl, rfl⟩

theorem keeps_bind {x : Parse α} {f : α → Parse β} (hx : Keeps x) (hf : ∀ a, Keeps (f a)) :
    Keeps (x >>= f) := by
  intro s b u run
  obtain ⟨a, t, first, last⟩ := run_bind_eq_ok_iff.1 run
  obtain ⟨rest, sub, rfl⟩ := hx first
  obtain ⟨rest', sub', rfl⟩ := hf a last
  exact ⟨rest', sub'.trans sub, rfl⟩

theorem keeps_get : Keeps (get : Parse ParseState) := by
  intro s a t run
  cases run
  exact ⟨s.rest, List.suffix_rfl, rfl⟩

theorem keeps_fail (loc : Location) (cause : Cause) : Keeps (fail loc cause : Parse α) := by
  intro s a t run
  cases run

theorem keeps_outOfTokens : Keeps (outOfTokens : Parse α) :=
  keeps_bind keeps_get fun _ => keeps_fail _ _

theorem keeps_peek : Keeps peek := keeps_bind keeps_get fun _ => keeps_pure _

theorem keeps_nextIs (kind : TokenKind) : Keeps (nextIs kind) :=
  keeps_bind keeps_peek fun _ => keeps_pure _

theorem keeps_skip (n : Nat) : Keeps (skip n) := by
  intro s a t run
  cases run
  exact ⟨s.rest.drop n, List.drop_suffix n _, rfl⟩

theorem keeps_next : Keeps next := by
  intro s a t run
  obtain ⟨s', s1, got, last⟩ := run_bind_eq_ok_iff.1 run
  cases got
  clear run
  split at last
  · rename_i first more tokens
    cases last
    exact ⟨more, tokens ▸ List.suffix_cons _ _, rfl⟩
  · exact keeps_outOfTokens last

theorem keeps_mismatch (expected : String) (t : Token) : Keeps (mismatch expected t : Parse α) :=
  keeps_fail _ _

theorem keeps_expect (m : Mark) : Keeps (expect m) := by
  refine keeps_bind keeps_next fun t => ?_
  split
  · exact keeps_pure _
  · exact keeps_mismatch _ t

theorem keeps_ident : Keeps ident := by
  refine keeps_bind keeps_next fun t => ?_
  split
  · exact keeps_pure _
  · exact keeps_mismatch _ t

theorem keeps_string : Keeps string := by
  refine keeps_bind keeps_next fun t => ?_
  split
  · exact keeps_pure _
  · exact keeps_mismatch _ t

theorem keeps_listUpTo {item : Parse α} (h : Keeps item) (close wanted : Mark) (limit : Nat) :
    Keeps (listUpTo close wanted item limit) := by
  induction limit with
  | zero => exact keeps_outOfTokens
  | succ limit ih =>
    refine keeps_bind h fun x => keeps_bind keeps_next fun t => ?_
    split
    · exact keeps_pure _
    split
    · exact keeps_bind ih fun xs => keeps_pure _
    · exact keeps_mismatch _ t

theorem keeps_parenthesized {item : Parse α} (h : Keeps item) (wanted : Mark) (limit : Nat) :
    Keeps (parenthesized wanted item limit) := by
  refine keeps_bind (keeps_expect _) fun _ => keeps_bind (keeps_nextIs _) fun empty => ?_
  split
  · exact keeps_bind (keeps_skip 1) fun _ => keeps_pure _
  · exact keeps_listUpTo h _ _ limit

/-! ### Lookups -/

theorem keeps_program : Keeps program := keeps_bind keeps_get fun _ => keeps_pure _

theorem keeps_expr (id : ExprId) : Keeps (expr id) := keeps_bind keeps_program fun _ => keeps_pure _

theorem run_program {p : Program} {s t : ParseState} (h : program.run s = .ok (p, t)) :
    p = s.program ∧ t = s := by
  cases h
  exact ⟨rfl, rfl⟩

theorem run_expr {id : ExprId} {s t : ParseState} {e : Expr}
    (h : (expr id).run s = .ok (e, t)) : e = s.program.expr id ∧ t = s := by
  cases h
  exact ⟨rfl, rfl⟩

theorem run_variableNamed {name : String} {loc : Location} {s t : ParseState} {v : Variable}
    (h : (variableNamed name loc).run s = .ok (v, t)) :
    t = s ∧ s.program.resolve? s.function? name = some v := by
  obtain ⟨p, s1, got, rest⟩ := run_bind_eq_ok_iff.1 h
  obtain ⟨owner, s2, current, rest⟩ := run_bind_eq_ok_iff.1 rest
  obtain ⟨rfl, rfl⟩ := run_program got
  cases current
  clear h got
  split at rest
  · rename_i found
    cases rest
    exact ⟨rfl, found⟩
  · cases rest

theorem run_functionNamed {name : String} {loc : Location} {f : Function} {s t : ParseState}
    (h : (functionNamed name loc).run s = .ok (f, t)) :
    t = s ∧ s.program.function? name = some f := by
  obtain ⟨p, s1, got, rest⟩ := run_bind_eq_ok_iff.1 h
  obtain ⟨rfl, rfl⟩ := run_program got
  clear h got
  split at rest
  · rename_i found
    cases rest
    exact ⟨rfl, found⟩
  · cases rest

theorem run_structNamed {name : String} {loc : Location} {st : StructType} {s t : ParseState}
    (h : (structNamed name loc).run s = .ok (st, t)) :
    t = s ∧ s.program.struct? name = some st := by
  obtain ⟨p, s1, got, rest⟩ := run_bind_eq_ok_iff.1 h
  obtain ⟨rfl, rfl⟩ := run_program got
  clear h got
  split at rest
  · rename_i found
    cases rest
    exact ⟨rfl, found⟩
  · cases rest

theorem run_fieldNamed {v f : Variable} {field : String} {loc : Location} {s t : ParseState}
    (h : (fieldNamed v field loc).run s = .ok (f, t)) :
    t = s ∧ ∃ st, s.program.struct? (v.struct.getD v.name) = some st ∧
      st.field? field = some f := by
  obtain ⟨st, s1, named, rest⟩ := run_bind_eq_ok_iff.1 h
  obtain ⟨rfl, known⟩ := run_structNamed named
  clear h named
  split at rest
  · rename_i member
    cases rest
    exact ⟨rfl, st, known, member⟩
  · cases rest

/-! ## Parsers that build expressions -/

/-- The step takes up the expressions `taken` and hands on those of `given`. -/
def Builds (taken : List ExprId) (x : Parse α) (given : α → List ExprId) : Prop :=
  ∀ ⦃s a t⦄, x.run s = .ok (a, t) → s.Builds taken t (given a)

variable {taken : List ExprId} {given : α → List ExprId}

theorem Keeps.builds {x : Parse α} (h : Keeps x) (taken : List ExprId) :
    Builds taken x fun _ => taken := by
  intro s a t run
  obtain ⟨rest, sub, rfl⟩ := h run
  exact .take sub taken

theorem builds_fail (loc : Location) (cause : Cause) :
    Builds taken (fail loc cause : Parse α) given := by
  intro s a t run
  cases run

theorem builds_outOfTokens : Builds taken (outOfTokens : Parse α) given := by
  intro s a t run
  cases run

theorem builds_pure {a : α} (sub : (given a).Subperm taken) :
    Builds taken (pure a : Parse α) given := by
  intro s b t run
  cases run
  exact .offer s sub

theorem builds_bind {x : Parse α} {f : α → Parse β} {given' : β → List ExprId}
    (hx : Builds taken x given) (hf : ∀ a, Builds (given a) (f a) given') :
    Builds taken (x >>= f) given' := by
  intro s b u run
  obtain ⟨a, t, first, rest⟩ := run_bind_eq_ok_iff.1 run
  exact (hx first).trans (hf a rest)

/-- A step that builds nothing goes before. -/
theorem Keeps.bind_builds {x : Parse α} {f : α → Parse β} {given' : β → List ExprId} (hx : Keeps x)
    (hf : ∀ a, Builds taken (f a) given') : Builds taken (x >>= f) given' :=
  builds_bind (hx.builds taken) hf

/-- Other pending expressions stay pending. -/
theorem Builds.frame {x : Parse α} (h : Builds taken x given) (more : List ExprId) :
    Builds (taken ++ more) x fun a => given a ++ more :=
  fun _ _ _ run => (h run).frame more

/-- A step may be offered its expressions in another order, and more than it takes up. -/
theorem Builds.offer {x : Parse α} {offered : List ExprId} (h : Builds taken x given)
    (sub : taken.Subperm offered) : Builds offered x given :=
  fun s _ _ run => ParseState.Builds.trans (.offer s sub) (h run)

/-- Some of the expressions that a step hands on may be dropped. -/
theorem Builds.weaken {x : Parse α} {given' : α → List ExprId} (h : Builds taken x given)
    (sub : ∀ a, (given' a).Subperm (given a)) : Builds taken x given' :=
  fun _ a t run => (h run).trans (.offer t (sub a))

theorem builds_listUpTo {item : Parse α} (h : Builds [] item given) (close wanted : Mark)
    (limit : Nat) : Builds [] (listUpTo close wanted item limit) fun xs => xs.flatMap given := by
  induction limit with
  | zero => exact builds_outOfTokens
  | succ limit ih =>
    refine builds_bind h fun x => keeps_next.bind_builds fun t => ?_
    split
    · exact builds_pure (by rw [List.flatMap_singleton])
    split
    · refine builds_bind (ih.frame (given x)) fun xs => builds_pure ?_
      rw [List.flatMap_cons]
      exact List.perm_append_comm.subperm
    · exact builds_fail _ _

theorem builds_parenthesized {item : Parse α} (h : Builds [] item given) (wanted : Mark)
    (limit : Nat) : Builds [] (parenthesized wanted item limit) fun xs => xs.flatMap given := by
  refine (keeps_expect _).bind_builds fun _ => (keeps_nextIs _).bind_builds fun empty => ?_
  split
  · exact (keeps_skip 1).bind_builds fun _ => builds_pure (List.nil_subperm)
  · exact builds_listUpTo h _ _ limit

end Parse

end StackLang.Source
