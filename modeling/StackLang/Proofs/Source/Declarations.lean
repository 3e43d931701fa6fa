import StackLang.Proofs.Source.Expressions

/-!
# What declarations read

A declaration reads a signature and what its variable starts with. `Parse.Starts` lists the cases of
the latter: the elements of an array, a record for a structure, any other pointer, or a plain value.
Types are given to the values only then, so that up to there all is built in the steps of
expressions. `Parse.Declares` puts both together, and `Declares.sound` says that the declaration has
passed its checks.
-/

namespace StackLang.Source

open ParseState

variable {s t u : ParseState} {v : Variable} {value : ExprId} {values ids : List ExprId}

/-- Values get the types of fields. -/
theorem ParseState.Reads.retypeAll (s : ParseState) (pairs : List (Variable × ExprId)) :
    s.Reads { s with program := s.program.retypeAll pairs } := by
  induction pairs generalizing s with
  | nil => exact .refl s
  | cons pair pairs ih => exact (Reads.retype s pair.2 pair.1.type).trans (ih _)

namespace Parse

/-! ## Signatures -/

theorem keeps_signatureType (v : Variable) : Keeps (signatureType v) := by
  refine keeps_bind keeps_next fun t => ?_
  split
  · exact keeps_pure _
  · refine keeps_bind keeps_program fun p => ?_
    split
    · exact keeps_pure _
    · exact keeps_fail _ _
  · exact keeps_fail _ _

theorem builds_signatureSize (limit : Nat) : Builds [] (signatureSize limit) Option.toList := by
  refine (keeps_nextIs _).bind_builds fun bracket => ?_
  split
  · refine (keeps_skip 1).bind_builds fun _ => builds_bind (builds_expression limit) fun size => ?_
    exact (keeps_expect _).bind_builds fun _ => builds_pure (List.Subperm.refl [size])
  · exact builds_pure List.nil_subperm

/-- A signature hands on the size that it gives. -/
theorem builds_signature (limit : Nat) :
    Builds [] (signature limit) fun parts => parts.2.1.toList := by
  refine keeps_ident.bind_builds fun name => (keeps_expect _).bind_builds fun _ => ?_
  refine (keeps_nextIs _).bind_builds fun isConst => ?_
  have rest (v : Variable) : Builds [] (do
      let v ← signatureType v
      let size ← signatureSize limit
      return ({ v with isArray := size.isSome || v.type == .str }, size, name.2))
      fun parts : Variable × Option ExprId × Location => parts.2.1.toList := by
    refine (keeps_signatureType v).bind_builds fun v => ?_
    exact builds_bind (builds_signatureSize limit) fun size => builds_pure (List.Subperm.refl _)
  dsimp only
  split
  · exact (keeps_skip 1).bind_builds fun _ => rest _
  · exact rest _

/-- The size of a field is not used. -/
theorem builds_fields (limit : Nat) : Builds [] (fields limit) fun _ => [] := by
  induction limit with
  | zero => exact builds_outOfTokens
  | succ limit ih =>
    refine (keeps_nextIs _).bind_builds fun closed => ?_
    split
    · exact (keeps_skip 1).bind_builds fun _ => builds_pure List.nil_subperm
    · refine builds_bind ((builds_signature limit).weaken fun _ => List.nil_subperm) fun field => ?_
      refine (keeps_expect _).bind_builds fun _ => builds_bind ih fun more => ?_
      exact builds_pure List.nil_subperm

theorem keeps_returnType : Keeps returnType := by
  refine keeps_bind keeps_next fun t => ?_
  split
  · exact keeps_pure _
  · refine keeps_bind keeps_program fun p => ?_
    split
    · exact keeps_pure _
    · exact keeps_fail _ _
  · exact keeps_fail _ _

/-! ## Lists -/

section

variable {α : Type}

/-- What holds of every item that can be read holds of the members of a list of them. -/
theorem forall_mem_of_listUpTo {item : Parse α} {P : α → Prop}
    (h : ∀ ⦃s a t⦄, item.run s = .ok (a, t) → P a) {close wanted : Mark} {limit : Nat}
    {xs : List α}
    (run : (listUpTo close wanted item limit).run s = .ok (xs, t)) : ∀ x ∈ xs, P x := by
  induction limit generalizing s xs with
  | zero => cases run
  | succ limit ih =>
    obtain ⟨x, s1, first, outer⟩ := run_bind_eq_ok_iff.1 run
    obtain ⟨mark, s2, taken, outer⟩ := run_bind_eq_ok_iff.1 outer
    have head : P x := h first
    split at outer
    · cases outer
      exact List.forall_mem_singleton.2 head
    split at outer
    · obtain ⟨more, s3, listed, last⟩ := run_bind_eq_ok_iff.1 outer
      cases last
      exact List.forall_mem_cons.2 ⟨head, ih listed⟩
    · cases outer

theorem forall_mem_of_parenthesized {item : Parse α} {P : α → Prop}
    (h : ∀ ⦃s a t⦄, item.run s = .ok (a, t) → P a) {wanted : Mark} {limit : Nat}
    {xs : List α}
    (run : (parenthesized wanted item limit).run s = .ok (xs, t)) : ∀ x ∈ xs, P x := by
  obtain ⟨_, s1, opened, outer⟩ := run_bind_eq_ok_iff.1 run
  obtain ⟨empty, s2, peeked, outer⟩ := run_bind_eq_ok_iff.1 outer
  split at outer
  · obtain ⟨_, s3, skipped, last⟩ := run_bind_eq_ok_iff.1 outer
    cases last
    exact List.forall_mem_nil _
  · exact forall_mem_of_listUpTo h outer

end

/-! ## Values -/

/-- A checked value meets the type of its variable, and nothing else happens. -/
theorem checkValue_spec {loc : Location} {u : Unit}
    (h : (checkValue v value loc).run s = .ok (u, t)) :
    t = s ∧ (s.program.expr value).type.meets v.type := by
  obtain ⟨e, s1, got, rest⟩ := run_bind_eq_ok_iff.1 h
  obtain ⟨rfl, rfl⟩ := run_expr got
  clear h
  split at rest
  · rename_i meets
    cases rest
    exact ⟨rfl, meets⟩
  · cases rest

theorem element_spec {limit : Nat} (h : (element v limit).run s = .ok (value, t)) :
    s.Builds [] t [value] ∧ (t.program.expr value).type.meets v.type := by
  obtain ⟨x, s1, parsed, rest⟩ := run_bind_eq_ok_iff.1 h
  obtain ⟨e, s2, got, rest⟩ := run_bind_eq_ok_iff.1 rest
  obtain ⟨_, s3, checked, last⟩ := run_bind_eq_ok_iff.1 rest
  obtain ⟨rfl, rfl⟩ := run_expr got
  obtain ⟨rfl, meets⟩ := checkValue_spec checked
  cases last
  exact ⟨builds_expression limit parsed, meets⟩

theorem builds_element (v : Variable) (limit : Nat) :
    Builds [] (element v limit) fun id => [id] := fun _ _ _ run => (element_spec run).1

/-- Elements keep the types that were checked while the rest of the array is parsed. -/
theorem listUpTo_element_spec {close wanted : Mark} {bound limit : Nat}
    (h : (listUpTo close wanted (element v bound) limit).run s = .ok (values, t)) :
    ∀ value ∈ values, (t.program.expr value).type.meets v.type := by
  induction limit generalizing s values with
  | zero => cases h
  | succ limit ih =>
    obtain ⟨value, s1, parsed, rest⟩ := run_bind_eq_ok_iff.1 h
    obtain ⟨mark, s2, taken, rest⟩ := run_bind_eq_ok_iff.1 rest
    obtain ⟨built, meets⟩ := element_spec parsed
    obtain ⟨tokens, -, rfl⟩ := keeps_next taken
    clear h
    split at rest
    · cases rest
      simpa using meets
    split at rest
    · obtain ⟨values, s3, more, last⟩ := run_bind_eq_ok_iff.1 rest
      cases last
      have grows := (builds_listUpTo (builds_element v bound) close wanted limit more).grows
      have present : value < s1.program.exprs.size :=
        built.bounded (by simp) value (List.mem_singleton_self value)
      intro other mem
      -- What comes later changes no expression that is there.
      rcases List.mem_cons.1 mem with rfl | mem
      · rwa [grows.expr _ present]
      · exact ih more other mem
    · cases rest

/-! ## Records -/

theorem run_retypeFields {loc : Location} {pairs : List (Variable × ExprId)} {u : Unit}
    (h : (retypeFields loc pairs).run s = .ok (u, t)) :
    t = { s with program := s.program.retypeAll pairs } := by
  unfold retypeFields at h
  induction pairs generalizing s with
  | nil =>
    cases h
    rfl
  | cons pair pairs ih =>
    obtain ⟨_, s1, first, rest⟩ := run_bind_eq_ok_iff.1 h
    obtain ⟨e, s2, got, checked⟩ := run_bind_eq_ok_iff.1 first
    obtain ⟨rfl, rfl⟩ := run_expr got
    clear h first
    split at checked
    · cases checked
      exact ih rest
    · cases checked

/-- Each value is checked before it takes the type of its field, which changes no other value. -/
theorem fits_of_retypeFields {loc : Location} {fields : List Variable} {u : Unit}
    (length : fields.length = values.length) (distinct : values.Nodup)
    (h : (retypeFields loc (fields.zip values)).run s = .ok (u, t)) :
    s.program.Fits Variable.type fields values := by
  unfold retypeFields at h
  induction fields generalizing s values with
  | nil =>
    obtain rfl := List.length_eq_zero_iff.1 length.symm
    exact .nil
  | cons field fields ih =>
    obtain ⟨value, values, rfl⟩ := List.exists_cons_of_length_eq_add_one length.symm
    have length : fields.length = values.length := by simpa using length
    rw [List.nodup_cons] at distinct
    rw [List.zip_cons_cons] at h
    obtain ⟨_, s1, first, rest⟩ := run_bind_eq_ok_iff.1 h
    obtain ⟨e, s2, got, checked⟩ := run_bind_eq_ok_iff.1 first
    obtain ⟨rfl, rfl⟩ := run_expr got
    clear h first
    split at checked
    · rename_i meets
      cases checked
      refine .cons meets (Program.Suits.congr (ih length distinct.2 rest) fun other mem => ?_)
      have ne : other ≠ value := fun same => distinct.1 (same ▸ mem)
      exact congrArg Expr.type (Program.expr_retype_of_ne ne field.type).symm
    · cases checked

/-! ## What a variable starts with -/

/-- The values that the variable `v` starts with are read from `s` to `t`. -/
inductive Starts (v : Variable) (s : ParseState) : List ExprId → ParseState → Prop where
  | elements {values : List ExprId} {t : ParseState} (several : v.hasElements = true)
      (read : s.Builds [] t values)
      (meets : ∀ value ∈ values, (t.program.expr value).type.meets v.type) : Starts v s values t
  /-- The values of a record fit the fields and take their types. -/
  | record {limit : Nat} {name : String} {st : StructType} {value : ExprId} {values : List ExprId}
      {u : ParseState} (single : v.hasElements = false) (struct : v.struct = some name)
      (read : (expression limit).run s = .ok (value, u))
      (record : (u.program.expr value).kind = .record values)
      (known : u.program.struct? name = some st)
      (fits : values.Nodup → u.program.Fits Variable.type st.fields values) :
      Starts v s [value] { u with program := u.program.retypeAll (st.fields.zip values) }
  | pointer {limit : Nat} {name : String} {value : ExprId} {t : ParseState}
      (single : v.hasElements = false) (struct : v.struct = some name)
      (read : (expression limit).run s = .ok (value, t))
      (other : ∀ values, (t.program.expr value).kind ≠ .record values) : Starts v s [value] t
  | plain {limit : Nat} {value : ExprId} {u : ParseState} (single : v.hasElements = false)
      (simple : v.struct = none) (read : (expression limit).run s = .ok (value, u)) :
      Starts v s [value] { u with program := u.program.retype value v.type }

theorem starts_of_structValue {loc : Location} {limit : Nat} {name : String}
    (h : (structValue v loc limit).run s = .ok (value, t)) (single : v.hasElements = false)
    (struct : v.struct = some name) : Starts v s [value] t := by
  obtain ⟨x, s1, parsed, rest⟩ := run_bind_eq_ok_iff.1 h
  obtain ⟨e, s2, got, outer⟩ := run_bind_eq_ok_iff.1 rest
  obtain ⟨rfl, rfl⟩ := run_expr got
  clear h rest
  split at outer
  · cases outer
  split at outer
  · rename_i values record
    obtain ⟨st, s3, named, inner⟩ := run_bind_eq_ok_iff.1 outer
    obtain ⟨rfl, known⟩ := run_structNamed named
    rw [struct, Option.getD_some] at known
    clear outer
    split at inner
    · cases inner
    rename_i count
    obtain ⟨_, s4, retyped, last⟩ := run_bind_eq_ok_iff.1 inner
    cases last
    rw [run_retypeFields retyped]
    refine .record single struct parsed record known fun distinct => ?_
    exact fits_of_retypeFields (Decidable.not_not.1 count) distinct retyped
  · rename_i other
    cases outer
    exact .pointer single struct parsed fun values record => other values record

theorem starts_of_initialValues {loc : Location} {limit : Nat}
    (h : (initialValues v loc limit).run s = .ok (values, t)) : Starts v s values t := by
  unfold initialValues at h
  split at h
  · rename_i several
    obtain ⟨_, s1, opened, rest⟩ := run_bind_eq_ok_iff.1 h
    have listed : s1.Builds [] t (values.flatMap fun id => [id]) :=
      builds_listUpTo (builds_element v limit) .closeBracket .comma limit rest
    rw [List.flatMap_singleton'] at listed
    exact .elements several (((keeps_expect _).builds [] opened).trans listed)
      (listUpTo_element_spec rest)
  rename_i single
  have single : v.hasElements = false := eq_false_of_ne_true single
  split at h
  · rename_i isStruct
    obtain ⟨value, s1, parsed, last⟩ := run_bind_eq_ok_iff.1 h
    cases last
    obtain ⟨name, struct⟩ := Option.isSome_iff_exists.1 isStruct
    exact starts_of_structValue parsed single struct
  · rename_i simple
    obtain ⟨value, s1, parsed, last⟩ := run_bind_eq_ok_iff.1 h
    cases last
    obtain ⟨x, s2, read, rest⟩ := run_bind_eq_ok_iff.1 parsed
    obtain ⟨_, s3, checked, rest⟩ := run_bind_eq_ok_iff.1 rest
    obtain ⟨_, s4, updated, last⟩ := run_bind_eq_ok_iff.1 rest
    obtain ⟨rfl, -⟩ := checkValue_spec checked
    cases updated
    cases last
    exact .plain single (Option.not_isSome_iff_eq_none.1 simple) read

namespace Starts

/-- The owner of a variable does not matter. -/
theorem own (h : Starts v s values t) (owner : Option String) :
    Starts { v with owner } s values t := by
  cases h with
  | elements several read meets => exact .elements several read meets
  | record single struct read record known fits =>
    exact .record single struct read record known fits
  | pointer single struct read other => exact .pointer single struct read other
  | plain single simple read => exact .plain single simple read

theorem reads (h : Starts v s values t) : s.Reads t := by
  cases h with
  | elements _ read => exact read.reads
  | record _ _ read => exact (builds_expression _ read).reads.trans (.retypeAll _ _)
  | pointer _ _ read => exact (builds_expression _ read).reads
  | plain _ _ read => exact (builds_expression _ read).reads.trans (.retype _ _ _)

/-- Types are given to expressions that no check has read. -/
theorem sound (h : Starts v s values t) (sound : s.program.Sound ids) :
    t.program.Sound (values ++ ids) := by
  cases h with
  | elements _ read => exact read.sound sound
  | record _ _ read record =>
    have parsed := (builds_expression _ read).sound sound
    refine parsed.retypeAll fun pair mem => ?_
    exact parsed.built.free_of_record record (List.of_mem_zip mem).2
  | pointer _ _ read => exact (builds_expression _ read).sound sound
  | plain _ _ read =>
    have parsed := (builds_expression _ read).sound sound
    exact parsed.retype parsed.built.free v.type

/-- What a variable starts with has the types that are declared for it. -/
theorem typed (h : Starts v s values t) (built : s.program.Built []) (size : Option ExprId) :
    Declaration.Typed t.program ⟨v, size, values⟩ := by
  cases h with
  | elements several read meets =>
    refine ⟨fun single => ?_, fun _ => meets, fun single => ?_⟩
    · exact absurd (several.symm.trans single) (by decide)
    · exact absurd (several.symm.trans single) (by decide)
  | @record limit name st value values u single struct read record known fits =>
    refine ⟨fun _ simple => ?_, fun several => ?_, fun _ other struct' => ?_⟩
    · exact absurd (simple.symm.trans struct) (by simp)
    · exact absurd (several.symm.trans single) (by decide)
    obtain rfl : name = other := Option.some.inj (struct.symm.trans struct')
    refine ⟨value, rfl, fun others same => ⟨st, by rwa [Program.struct?_retypeAll], ?_⟩⟩
    rw [Program.kind_retypeAll, record] at same
    cases same
    have parsed := (builds_expression _ read).built built
    obtain ⟨distinct, present⟩ := parsed.values_of_record record
    exact Program.suits_retypeAll (fits distinct).length_eq distinct present
  | pointer single struct read other =>
    refine ⟨fun _ simple => ?_, fun several => ?_, fun _ name _ => ?_⟩
    · exact absurd (simple.symm.trans struct) (by simp)
    · exact absurd (several.symm.trans single) (by decide)
    · exact ⟨_, rfl, fun values record => absurd record (other values)⟩
  | plain single simple read =>
    have parsed := (builds_expression _ read).built built
    refine ⟨fun _ _ => ⟨_, rfl, ?_⟩, fun several => ?_, fun _ name struct => ?_⟩
    · exact Program.type_retype (parsed.bounded _ (by simp)) v.type
    · exact absurd (several.symm.trans single) (by decide)
    · exact absurd (simple.symm.trans struct) (by simp)

end Starts

/-- The declaration is read from `s` to `t`, in the function that `s` is in. -/
structure Declares (s t : ParseState) (d : Declaration) : Prop where
  owner : d.target.owner = s.function?
  read : ∃ u, s.Builds [] u d.size.toList ∧ Starts d.target u d.values t

namespace Declares

variable {d : Declaration}

theorem reads (h : Declares s t d) : s.Reads t := by
  obtain ⟨u, size, starts⟩ := h.read
  exact size.reads.trans starts.reads

/-- A declaration has passed its checks, and its expressions are there for it. -/
theorem sound (h : Declares s t d) (sound : s.program.Sound ids) :
    t.program.Sound ((Statement.declare d).exprs ++ ids) ∧ d.Typed t.program := by
  obtain ⟨u, size, starts⟩ := h.read
  have before : u.program.Sound (d.size.toList ++ ids) := size.sound sound
  refine ⟨(starts.sound before).weaken (List.Perm.subperm ?_), ?_⟩
  · rw [List.perm_iff_count]
    intro id
    simp only [Statement.exprs, List.count_append]
    omega
  · exact starts.typed (before.built.weaken List.nil_subperm) d.size

end Declares

end Parse

end StackLang.Source
