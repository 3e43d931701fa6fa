import StackLang.Proofs.Source.Growth

/-!
# Accepted programs are typed

Declarations give types to the values they start with, while calls and operators were checked
against the types from before. A declaration only reaches expressions that no check has read: its
value, which is part of nothing else, and the values of a record, which no check reads. So what was
checked stays true, and every accepted program has the types that it was checked for,
`wellTyped_of_parse`.
-/

namespace StackLang.Source

/-- Whether a variable is declared by its elements. One of the type `str` has a single value. -/
def Variable.hasElements (v : Variable) : Bool := v.isArray && v.type != .str

/-- The first values of a declaration have the types that are declared for them. -/
structure Declaration.Typed (p : Program) (d : Declaration) : Prop where
  /-- The value of a variable has its type. -/
  plain (single : d.target.hasElements = false) (simple : d.target.struct = none) :
    ∃ value, d.values = [value] ∧ (p.expr value).type = d.target.type
  /-- The elements of an array meet its type. -/
  elements (several : d.target.hasElements = true) :
    ∀ value ∈ d.values, (p.expr value).type.meets d.target.type
  /-- The values of a record that a structure starts with have the types of its fields. -/
  record (single : d.target.hasElements = false) {name : String}
    (struct : d.target.struct = some name) :
    ∃ value, d.values = [value] ∧ ∀ values, (p.expr value).kind = .record values →
      ∃ s, p.struct? name = some s ∧
        p.Suits (fun field type => type = field.type) s.fields values

/-- The checks that a statement has passed. -/
def Statement.Typed (p : Program) : Statement → Prop
  | .call name args => ∃ f, p.function? name = some f ∧ p.Fits Variable.type f.params args
  | .declare d => d.Typed p
  | _ => True

namespace Program

variable {p q : Program}

/-- What a check of a statement reads of an expression is the same in both programs: its form,
its type, and the types of what it is made of. -/
def SameAt (q p : Program) (id : ExprId) : Prop :=
  (q.expr id).kind = (p.expr id).kind ∧ (q.expr id).type = (p.expr id).type ∧
    ∀ c ∈ (p.expr id).kind.children, (q.expr c).type = (p.expr c).type

theorem SameAt.of_exprs {q p : Program} (h : q.exprs = p.exprs) (id : ExprId) : q.SameAt p id := by
  have same (k : ExprId) : q.expr k = p.expr k := by rw [expr, h, expr]
  exact ⟨by rw [same], by rw [same], fun c _ => by rw [same]⟩

/-- What is known of structures stays known. -/
def KnowsStructs (q p : Program) : Prop :=
  ∀ {name : String} {s : StructType}, p.struct? name = some s → q.struct? name = some s

end Program

theorem Declaration.Typed.congr {p q : Program} {d : Declaration} (h : d.Typed p)
    (structs : q.KnowsStructs p) (same : ∀ id ∈ d.values, q.SameAt p id) : d.Typed q where
  plain single simple := by
    obtain ⟨value, eq, type⟩ := h.plain single simple
    exact ⟨value, eq, (same value (by simp [eq])).2.1.trans type⟩
  elements several value mem := by
    rw [(same value mem).2.1]
    exact h.elements several value mem
  record single name struct := by
    obtain ⟨value, eq, fields⟩ := h.record single struct
    obtain ⟨kind, -, inner⟩ := same value (by simp [eq])
    refine ⟨value, eq, fun values record => ?_⟩
    rw [kind] at record
    obtain ⟨s, found, types⟩ := fields values record
    rw [record] at inner
    exact ⟨s, structs found, types.congr inner⟩

theorem Statement.Typed.congr {p q : Program} {st : Statement} (h : st.Typed p)
    (known : q.Knows p) (structs : q.KnowsStructs p) (same : ∀ id ∈ st.exprs, q.SameAt p id) :
    st.Typed q := by
  cases st with
  | declare d =>
    exact Declaration.Typed.congr h structs fun id mem => same id (List.mem_append_right _ mem)
  | call name args =>
    obtain ⟨f, found, fits⟩ := h
    exact ⟨f, known.function found, Program.Suits.congr fits fun id mem => (same id mem).2.1⟩
  | _ => trivial

namespace Program

variable {p q : Program} {pending ids : List ExprId}

/-- Every statement and every global declaration has passed its checks. -/
structure Stated (p : Program) : Prop where
  statements : ∀ s ∈ p.statements.toList, s.item.Typed p
  globals : ∀ d ∈ p.globals.toList, d.item.Typed p

theorem Stated.congr (h : p.Stated) (statements : q.statements = p.statements)
    (globals : q.globals = p.globals) (known : q.Knows p) (structs : q.KnowsStructs p)
    (same : ∀ id ∈ p.placed, q.SameAt p id) : q.Stated where
  statements s mem := by
    rw [statements] at mem
    refine (h.statements s mem).congr known structs fun id inside => same id ?_
    exact List.mem_append_left _ (List.mem_append_left _ (List.mem_flatMap.2 ⟨s, mem, inside⟩))
  globals d mem := by
    rw [globals] at mem
    refine (h.globals d mem).congr structs fun id inside => same id ?_
    refine List.mem_append_left _ (List.mem_append_right _ (List.mem_flatMap.2 ⟨d, mem, ?_⟩))
    exact List.mem_append_right _ inside

/-- What statements are made of is not changed when the program grows. -/
theorem Built.sameAt_of_placed (h : p.Built pending)
    (old : ∀ id < p.exprs.size, q.expr id = p.expr id) {id : ExprId} (mem : id ∈ p.placed) :
    q.SameAt p id := by
  have lt := h.bounded id (List.mem_append_right _ mem)
  rw [SameAt, old id lt]
  refine ⟨rfl, rfl, fun c child => ?_⟩
  rw [old c (Nat.lt_trans (h.below id lt c child) lt)]

/-- A program whose statements are complete: its expressions are built and everything has passed
its checks. -/
structure Sound (p : Program) (pending : List ExprId) : Prop where
  built : p.Built pending
  stated : p.Stated

namespace Sound

theorem weaken (h : p.Sound pending) (sub : ids.Subperm pending) : p.Sound ids :=
  ⟨h.built.weaken sub, h.stated⟩

theorem stated_of_grows (h : p.Sound pending) (grows : p.Grows q) : q.Stated :=
  h.stated.congr grows.statements grows.globals grows.knows (struct?_of_isPrefix grows.isPrefix)
    fun _ mem => h.built.sameAt_of_placed grows.expr mem

/-- Functions and symbols are added. -/
theorem learn (h : p.Sound pending) (exprs : q.exprs = p.exprs)
    (statements : q.statements = p.statements) (globals : q.globals = p.globals)
    (libraries : q.libraries = p.libraries) (known : q.Knows p) (structs : q.KnowsStructs p) :
    q.Sound pending := by
  have placed : q.placed = p.placed := by rw [placed, statements, globals, libraries, placed]
  refine ⟨?_, h.stated.congr statements globals known structs fun id _ => .of_exprs exprs id⟩
  exact Built.place [] h.built exprs (by rw [placed]; rfl) known

/-- A statement that has passed its checks takes up the expressions it is made of. -/
theorem emit (st : Statement) (h : p.Sound (st.exprs ++ ids)) (typed : st.Typed p)
    (loc : Location) : Sound { p with statements := p.statements.push ⟨st, loc⟩ } ids := by
  have known : Knows { p with statements := p.statements.push ⟨st, loc⟩ } p := ⟨id, id⟩
  refine ⟨Built.place _ h.built rfl ?_ known, ?_, ?_⟩
  · rw [List.perm_iff_count]
    intro id
    simp only [placed, Array.toList_push, List.flatMap_append, List.flatMap_singleton,
      List.count_append]
    omega
  · intro s mem
    rw [Array.toList_push, List.mem_append, List.mem_singleton] at mem
    rcases mem with mem | rfl
    · exact (h.stated.statements s mem).congr known id fun id _ => .of_exprs rfl id
    · exact typed.congr known id fun id _ => .of_exprs rfl id
  · intro d mem
    exact (h.stated.globals d mem).congr id fun id _ => .of_exprs rfl id

/-- A global declaration that has passed its checks takes up its expressions. -/
theorem emitGlobal {d : Declaration} (h : p.Sound ((Statement.declare d).exprs ++ ids))
    (typed : d.Typed p) (loc : Location) :
    Sound { p with globals := p.globals.push ⟨d, loc⟩ } ids := by
  have known : Knows { p with globals := p.globals.push ⟨d, loc⟩ } p := ⟨id, id⟩
  refine ⟨Built.place _ h.built rfl ?_ known, ?_, ?_⟩
  · rw [List.perm_iff_count]
    intro id
    simp only [placed, Array.toList_push, List.flatMap_append, List.flatMap_singleton,
      List.count_append]
    omega
  · intro s mem
    exact (h.stated.statements s mem).congr known id fun id _ => .of_exprs rfl id
  · intro g mem
    rw [Array.toList_push, List.mem_append, List.mem_singleton] at mem
    rcases mem with mem | rfl
    · exact (h.stated.globals g mem).congr id fun id _ => .of_exprs rfl id
    · exact typed.congr id fun id _ => .of_exprs rfl id

/-- A library statement takes up its expression. -/
theorem emitLibrary {value : ExprId} (h : p.Sound (value :: ids)) (loc : Location) :
    Sound { p with libraries := p.libraries.push ⟨value, loc⟩ } ids := by
  have known : Knows { p with libraries := p.libraries.push ⟨value, loc⟩ } p := ⟨id, id⟩
  refine ⟨Built.place [value] h.built rfl ?_ known, ?_⟩
  · rw [List.perm_iff_count]
    intro id
    simp only [placed, Array.toList_push, List.map_append, List.map_singleton, List.count_append]
    omega
  · exact h.stated.congr rfl rfl known id fun id _ => .of_exprs rfl id

end Sound

/-- A structure takes the place of the unfinished one when its fields are known. No statement has
been checked in between. -/
theorem Sound.addStruct {r : Program} {unfinished st : StructType}
    {structs : Array (Located StructType)} (h : p.Sound pending)
    (grows : Grows { p with symbols := p.symbols.push (.struct unfinished) } r)
    (built : r.Built ids) :
    Sound { r with
      symbols := r.symbols.setIfInBounds p.symbols.size (.struct st)
      structs } ids := by
  obtain ⟨fs, symbols, -⟩ := grows.declared
  have before : r.symbols.toList = p.symbols.toList ++ .struct unfinished :: fs.map .foreign := by
    simpa using symbols
  have after : (r.symbols.setIfInBounds p.symbols.size (.struct st)).toList =
      p.symbols.toList ++ .struct st :: fs.map .foreign := by
    rw [Array.toList_setIfInBounds, before, List.set_append_right _ _ (by simp)]
    simp
  have extended : p.symbols.toList <+:
      (r.symbols.setIfInBounds p.symbols.size (.struct st)).toList := ⟨_, after.symm⟩
  refine ⟨Built.place [] built rfl (.refl _) ⟨fun found => found, fun found => ?_⟩, ?_⟩
  · unfold foreign? at found ⊢
    rw [before, List.findSome?_append] at found
    rw [after, List.findSome?_append]
    exact found
  · refine h.stated.congr grows.statements grows.globals ?_ (struct?_of_isPrefix extended) ?_
    · exact .of_isPrefix (by simp [grows.functions]) extended
    · exact fun id mem => h.built.sameAt_of_placed grows.expr mem

/-! ## Types that may change -/

/-- No check has read the type of the expression. -/
structure Free (p : Program) (id : ExprId) : Prop where
  unchecked : ∀ k < p.exprs.size, id ∉ (p.expr k).kind.checked
  unplaced : id ∉ p.placed
  unread : ∀ k ∈ p.placed, id ∉ (p.expr k).kind.children

/-- A pending expression is free. -/
theorem Built.free {id : ExprId} (h : p.Built (id :: ids)) : p.Free id := by
  have children {k : ExprId} (lt : k < p.exprs.size) : id ∉ (p.expr k).kind.children :=
    Built.not_mem_children [id] h (by simp) lt
  refine ⟨fun k lt mem => children lt (ExprKind.checked_subset_children _ mem), ?_, ?_⟩
  · intro mem
    refine (List.nodup_cons.1 h.single).1 (List.mem_append_right _ ?_)
    exact List.mem_append_right _ mem
  · exact fun k mem => children (h.bounded k (List.mem_append_right _ mem))

/-- The values of a pending record are free. -/
theorem Built.free_of_record {id value : ExprId} {values : List ExprId} (h : p.Built (id :: ids))
    (record : (p.expr id).kind = .record values) (mem : value ∈ values) : p.Free value := by
  have lt : id < p.exprs.size := h.bounded id (by simp)
  have child : value ∈ (p.expr id).kind.children := by rwa [record]
  have alone {k : ExprId} (hk : k < p.exprs.size) (inside : value ∈ (p.expr k).kind.children) :
      k = id := h.eq_of_mem_children hk lt inside child
  refine ⟨?_, ?_, ?_⟩
  · intro k hk inside
    obtain rfl := alone hk (ExprKind.checked_subset_children _ inside)
    rw [record] at inside
    exact List.not_mem_nil inside
  · intro placed
    have used : p.used.Nodup := (List.nodup_append.1 h.single).2.1
    exact List.disjoint_of_nodup_append used (mem_inner.2 ⟨id, lt, child⟩) placed
  · intro k placed inside
    obtain rfl := alone (h.bounded k (List.mem_append_right _ placed)) inside
    exact h.free.unplaced placed

/-- The values of a pending record are different ones that stand in front of it. -/
theorem Built.values_of_record {id : ExprId} {values : List ExprId} (h : p.Built (id :: ids))
    (record : (p.expr id).kind = .record values) :
    values.Nodup ∧ ∀ value ∈ values, value < p.exprs.size := by
  have lt : id < p.exprs.size := h.bounded id (by simp)
  have children : (p.expr id).kind.children = values := by rw [record]; rfl
  rw [← children]
  exact ⟨h.nodup_children lt, fun value mem => Nat.lt_trans (h.below id lt value mem) lt⟩

theorem Free.retype {id other : ExprId} (h : p.Free id) (type : DataType) :
    (p.retype other type).Free id where
  unchecked k lt := by
    rw [size_retype] at lt
    rw [kind_retype]
    exact h.unchecked k lt
  unplaced := h.unplaced
  unread k mem := by
    rw [kind_retype]
    exact h.unread k mem

/-- The type of a free expression may change. -/
theorem Sound.retype {id : ExprId} (h : p.Sound pending) (free : p.Free id) (type : DataType) :
    (p.retype id type).Sound pending := by
  refine ⟨h.built.retype free.unchecked type, ?_⟩
  refine h.stated.congr rfl rfl ⟨fun found => found, fun found => found⟩ (fun found => found) ?_
  intro k mem
  have ne : k ≠ id := fun eq => free.unplaced (eq ▸ mem)
  refine ⟨kind_retype p id k type, by rw [expr_retype_of_ne ne], fun c child => ?_⟩
  have ne : c ≠ id := fun eq => free.unread k mem (eq ▸ child)
  rw [expr_retype_of_ne ne]

/-- Gives expressions the types of variables, one after the other. -/
def retypeAll (p : Program) : List (Variable × ExprId) → Program
  | [] => p
  | (field, value) :: rest => (p.retype value field.type).retypeAll rest

theorem Sound.retypeAll {pairs : List (Variable × ExprId)} (h : p.Sound pending)
    (free : ∀ pair ∈ pairs, p.Free pair.2) : (p.retypeAll pairs).Sound pending := by
  induction pairs generalizing p with
  | nil => exact h
  | cons pair pairs ih =>
    refine ih (h.retype (free pair List.mem_cons_self) _) fun other mem => ?_
    exact (free other (List.mem_cons_of_mem _ mem)).retype _

theorem expr_retypeAll {pairs : List (Variable × ExprId)} {id : ExprId}
    (h : id ∉ pairs.map Prod.snd) : (p.retypeAll pairs).expr id = p.expr id := by
  induction pairs generalizing p with
  | nil => rfl
  | cons pair pairs ih =>
    rw [List.map_cons, List.mem_cons, not_or] at h
    rw [retypeAll, ih h.2, expr_retype_of_ne h.1]

@[simp] theorem kind_retypeAll (p : Program) (pairs : List (Variable × ExprId)) (id : ExprId) :
    ((p.retypeAll pairs).expr id).kind = (p.expr id).kind := by
  induction pairs generalizing p with
  | nil => rfl
  | cons pair pairs ih => rw [retypeAll, ih, kind_retype]

@[simp] theorem struct?_retypeAll (p : Program) (pairs : List (Variable × ExprId))
    (name : String) : (p.retypeAll pairs).struct? name = p.struct? name := by
  induction pairs generalizing p with
  | nil => rfl
  | cons pair pairs ih => exact ih _

/-- Different values get the types of the fields in order. -/
theorem suits_retypeAll {fields : List Variable} {values : List ExprId}
    (length : fields.length = values.length) (distinct : values.Nodup)
    (present : ∀ value ∈ values, value < p.exprs.size) :
    (p.retypeAll (fields.zip values)).Suits (fun field type => type = field.type) fields
      values := by
  induction fields generalizing p values with
  | nil =>
    obtain rfl := List.length_eq_zero_iff.1 length.symm
    exact .nil
  | cons field fields ih =>
    obtain ⟨value, values, rfl⟩ := List.exists_cons_of_length_eq_add_one length.symm
    have length : fields.length = values.length := by simpa using length
    rw [List.nodup_cons] at distinct
    rw [List.zip_cons_cons, retypeAll]
    refine .cons ?_ (ih length distinct.2 fun other mem => ?_)
    · rw [expr_retypeAll, type_retype (present value List.mem_cons_self)]
      rw [List.map_snd_zip (Nat.le_of_eq length.symm)]
      exact distinct.1
    · rw [size_retype]
      exact present other (List.mem_cons_of_mem _ mem)

end Program

end StackLang.Source
