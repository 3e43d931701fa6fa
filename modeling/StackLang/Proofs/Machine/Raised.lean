import StackLang.Proofs.Machine.Runs

/-!
# Machines with more values below

`m.Raised below n` says that `n` is the machine `m` with the values `below` under its operand
stack. Instructions reach the operand stack from the top, so what an action does on `m` it does on
`n` as well, and leaves the one raised over the other. This does not hold of `ss` and `ref`, which
tell how deep the stack is, of foreign functions, which may pop as much as they like, and of
addresses of slots. `Exec.Mirrors` relates actions in the middle of an instruction, where values
have been taken; `Exec.Completes` relates those that end one and may put a value back, for which
the raised stack needs room.
-/

namespace StackLang

open Bytecode

/-- `t` is the stack `s` with the values `below` under it. -/
structure Stack.Raised (below : List Value) (s t : Stack) : Prop where
  values : t.values = below ++ s.values
  slots : s.capacity = stackCapacity
  slotsRaised : t.capacity = stackCapacity

/-- `n` is the machine `m` with the values `below` under its operand stack. -/
def Machine.Raised (below : List Value) (m n : Machine) : Prop :=
  ∃ t, m.stack.Raised below t ∧ n = { m with stack := t }

/-- The word that starts at an address touches no slot of the operand stack. -/
def IsOutside (address : Nat) : Prop :=
  address + 8 ≤ Machine.stackAddress ∨
    Machine.stackAddress + Stack.slotSize * stackCapacity ≤ address

instance (address : Nat) : Decidable (IsOutside address) :=
  inferInstanceAs (Decidable (_ ∨ _))

/-- The first two native functions are the ones that are built in. -/
def Machine.HasBuiltins (m : Machine) : Prop :=
  m.natives[0]? = some .write ∧ m.natives[1]? = some .exit

/-- No value on the operand stack is an address of a slot, and the built-in functions are there. -/
structure Machine.Aloof (m : Machine) : Prop where
  outside : ∀ v ∈ m.stack.live, IsOutside v.word.toNat
  builtins : m.HasBuiltins

/-! ## The stack -/

namespace Stack.Raised

variable {below : List Value} {s t u : Stack} {v : Value}

theorem live (h : s.Raised below t) : t.live = s.live ++ below.reverse := by
  have reversed := congrArg List.reverse h.values
  simpa [Stack.values] using reversed

theorem of_live (live : t.live = s.live ++ below.reverse) (slots : s.capacity = stackCapacity)
    (slotsRaised : t.capacity = stackCapacity) : s.Raised below t :=
  ⟨by simp [Stack.values, live], slots, slotsRaised⟩

theorem size (h : s.Raised below t) : t.size = s.size + below.length := by
  simp [Stack.size, h.live]

theorem pop (h : s.Raised below t) (popped : s.pop = .ok (v, u)) :
    ∃ u', t.pop = .ok (v, u') ∧ u.Raised below u' := by
  obtain ⟨top, free⟩ := pop_eq_ok_iff.1 popped
  have raisedTop : t.live = v :: (u.live ++ below.reverse) := by
    rw [h.live, top, List.cons_append]
  have raised : t.pop = .ok (v, ⟨u.live ++ below.reverse, v :: t.free⟩) :=
    pop_eq_ok_iff.2 ⟨raisedTop, rfl⟩
  refine ⟨_, raised, of_live rfl ?_ ?_⟩
  · rw [capacity_of_pop popped, h.slots]
  · rw [capacity_of_pop raised, h.slotsRaised]

/-- A push onto the raised stack needs a slot more than there are values below. -/
theorem push (h : s.Raised below t) (pushed : s.push v = .ok u)
    (room : below.length + u.size ≤ stackCapacity) :
    ∃ u', t.push v = .ok u' ∧ u.Raised below u' := by
  obtain ⟨w, free, top⟩ := push_eq_ok_iff.1 pushed
  have slots := h.slotsRaised
  have depth := h.size
  have one : u.size = s.size + 1 := by simp [Stack.size, top]
  cases freeRaised : t.free with
  | nil =>
    simp only [capacity, freeRaised, List.length_nil] at slots
    simp only [Stack.size] at depth one room
    omega
  | cons w' free' =>
    have raised : t.push v = .ok ⟨v :: t.live, free'⟩ :=
      push_eq_ok_iff.2 ⟨w', freeRaised, rfl⟩
    refine ⟨_, raised, of_live ?_ ?_ ?_⟩
    · rw [top, h.live, List.cons_append]
    · rw [capacity_of_push pushed, h.slots]
    · rw [capacity_of_push raised, h.slotsRaised]

theorem top? (h : s.Raised below t) (top : s.top? = some v) : t.top? = some v := by
  unfold Stack.top? at top ⊢
  rw [h.live, List.head?_append, top]
  rfl

theorem retag (h : s.Raised below t) {tag : Tag} (retagged : s.retag tag = .ok u) :
    ∃ u', t.retag tag = .ok u' ∧ u.Raised below u' := by
  have slots := capacity_of_retag retagged
  unfold Stack.retag at retagged
  cases top : s.live with
  | nil =>
    rw [top] at retagged
    cases retagged
  | cons v rest =>
    rw [top] at retagged
    cases retagged
    have raisedTop : t.live = v :: (rest ++ below.reverse) := by
      rw [h.live, top, List.cons_append]
    have raised :
        t.retag tag = .ok { t with live := { v with tag } :: (rest ++ below.reverse) } := by
      unfold Stack.retag
      rw [raisedTop]
    refine ⟨_, raised, of_live rfl ?_ ?_⟩
    · rw [slots, h.slots]
    · rw [capacity_of_retag raised, h.slotsRaised]

/-- An index from the bottom is raised by the number of values below. -/
theorem get? (h : s.Raised below t) {i : Nat} (found : s.get? i = some v) :
    t.get? (i + below.length) = some v := by
  have depth := h.size
  unfold Stack.get? at found ⊢
  split at found
  · rename_i lt
    have same : t.size - 1 - (i + below.length) = s.size - 1 - i := by omega
    have inside : s.size - 1 - i < s.live.length := (List.getElem?_eq_some_iff.1 found).1
    rw [if_pos (by omega), same, h.live, List.getElem?_append_left inside, found]
  · cases found

theorem swap (h : s.Raised below t) {i j : Nat} (swapped : s.swap i j = .ok u) :
    ∃ u', t.swap (i + below.length) (j + below.length) = .ok u' ∧ u.Raised below u' := by
  have slots := capacity_of_swap swapped
  unfold Stack.swap at swapped
  split at swapped
  · rename_i v w first second
    cases swapped
    have depth := h.size
    have index {k : Nat} {x : Value} (found : s.get? k = some x) :
        t.size - 1 - (k + below.length) = s.size - 1 - k ∧ s.size - 1 - k < s.live.length := by
      unfold Stack.get? at found
      split at found
      · exact ⟨by omega, (List.getElem?_eq_some_iff.1 found).1⟩
      · cases found
    obtain ⟨sameFirst, insideFirst⟩ := index first
    obtain ⟨sameSecond, insideSecond⟩ := index second
    have raised : t.swap (i + below.length) (j + below.length) = .ok { t with
        live := (s.live.set (s.size - 1 - i) w).set (s.size - 1 - j) v ++ below.reverse } := by
      unfold Stack.swap
      rw [h.get? first, h.get? second]
      dsimp only
      rw [sameFirst, sameSecond, h.live, List.set_append_left _ _ insideFirst,
        List.set_append_left _ _ (by simpa using insideSecond)]
    refine ⟨_, raised, of_live rfl ?_ ?_⟩
    · rw [slots, h.slots]
    · rw [capacity_of_swap raised, h.slotsRaised]
  · cases swapped

end Stack.Raised

/-! ## Memory -/

namespace Machine

variable {below : List Value} {m n : Machine}

theorem Raised.slots (h : m.Raised below n) : m.stack.capacity = stackCapacity := by
  obtain ⟨t, raised, -⟩ := h
  exact raised.slots

theorem Raised.slotsRaised (h : m.Raised below n) : n.stack.capacity = stackCapacity := by
  obtain ⟨t, raised, rfl⟩ := h
  exact raised.slotsRaised

theorem ownsSlot_eq_false {address : Nat} (slots : m.stack.capacity = stackCapacity)
    (outside : address < stackAddress ∨
      stackAddress + Stack.slotSize * stackCapacity ≤ address) :
    m.ownsSlot address = false := by
  unfold ownsSlot
  rw [slots]
  simp only [Bool.and_eq_false_iff, decide_eq_false_iff_not]
  omega

/-- Behind an address of no slot there is the same on both machines. -/
theorem Raised.bytesFrom (h : m.Raised below n) {address : Nat} (outside : IsOutside address) :
    n.bytesFrom address = m.bytesFrom address := by
  have first : address < stackAddress ∨
      stackAddress + Stack.slotSize * stackCapacity ≤ address := by
    unfold IsOutside at outside
    omega
  have here := ownsSlot_eq_false h.slots first
  have there := ownsSlot_eq_false h.slotsRaised first
  unfold Machine.bytesFrom
  rw [here, there, if_neg Bool.false_ne_true, if_neg Bool.false_ne_true]
  obtain ⟨t, raised, rfl⟩ := h
  rfl

theorem Raised.textAt (h : m.Raised below n) {address : Nat} (outside : IsOutside address) :
    n.textAt address = m.textAt address := by
  unfold Machine.textAt
  rw [h.bytesFrom outside]

theorem Raised.setByte (h : m.Raised below n) {address : Nat} (b : UInt8)
    (outside : address < stackAddress ∨
      stackAddress + Stack.slotSize * stackCapacity ≤ address) :
    (m.setByte address b).Raised below (n.setByte address b) := by
  have here := ownsSlot_eq_false h.slots outside
  have there := ownsSlot_eq_false h.slotsRaised outside
  unfold Machine.setByte
  rw [here, there]
  obtain ⟨t, raised, rfl⟩ := h
  exact ⟨t, raised, rfl⟩

theorem Raised.setBytes (h : m.Raised below n) {address : Nat} {bytes : List UInt8}
    (outside : address + bytes.length ≤ stackAddress ∨
      stackAddress + Stack.slotSize * stackCapacity ≤ address) :
    (m.setBytes address bytes).Raised below (n.setBytes address bytes) := by
  induction bytes generalizing m n address with
  | nil => exact h
  | cons b rest ih =>
    rw [List.length_cons] at outside
    have first : (m.setByte address b).Raised below (n.setByte address b) :=
      h.setByte b (by omega)
    exact ih first (by omega)

end Machine

/-! ## Actions -/

namespace Exec

variable {α β : Type} {below : List Value}

/-- What `x` does on a machine, `y` does on the raised one, and the results are related. -/
def Mirrors (below : List Value) (related : α → α → Prop) (x y : Exec α) : Prop :=
  ∀ ⦃m n : Machine⦄, m.Raised below n → m.Aloof → ∀ ⦃a : α⦄ ⦃m' : Machine⦄, x m = .ok a m' →
    ∃ b n', y n = .ok b n' ∧ m'.Raised below n' ∧ m'.Aloof ∧ related a b

/-- What `x` does on a machine, `y` does on the raised one with the same result, if the stack that
`x` leaves can be raised. -/
def Completes (below : List Value) (x y : Exec α) : Prop :=
  ∀ ⦃m n : Machine⦄, m.Raised below n → m.Aloof → ∀ ⦃a : α⦄ ⦃m' : Machine⦄, x m = .ok a m' →
    below.length + m'.stack.size ≤ stackCapacity → ∃ n', y n = .ok a n' ∧ m'.Raised below n'

theorem exists_of_bind {x : Exec α} {f : α → Exec β} {m o : Machine} {b : β}
    (run : (x >>= f) m = .ok b o) : ∃ a n, x m = .ok a n ∧ f a n = .ok b o := by
  cases first : x m with
  | error e n =>
    rw [bind_of_error first] at run
    cases run
  | ok a n =>
    rw [bind_of_ok first] at run
    exact ⟨a, n, rfl, run⟩

theorem mirrors_pure {related : α → α → Prop} {a b : α} (h : related a b) :
    Mirrors below related (pure a) (pure b) := by
  intro m n raised aloof a' m' run
  cases run
  exact ⟨b, n, rfl, raised, aloof, h⟩

theorem mirrors_throw {related : α → α → Prop} {e : Fault} {y : Exec α} :
    Mirrors below related (throw e) y := by
  intro m n _ _ a m' run
  cases run

theorem mirrors_bind {related : α → α → Prop} {after : β → β → Prop} {x y : Exec α}
    {f g : α → Exec β} (first : Mirrors below related x y)
    (rest : ∀ a b, related a b → Mirrors below after (f a) (g b)) :
    Mirrors below after (x >>= f) (y >>= g) := by
  intro m n raised aloof c o run
  obtain ⟨a, m', ran, more⟩ := exists_of_bind run
  obtain ⟨b, n', ranRaised, raised', aloof', same⟩ := first raised aloof ran
  rw [bind_of_ok ranRaised]
  exact rest a b same raised' aloof' more

/-- To read the machine is to know that the raised one is read as well. -/
theorem mirrors_get : Mirrors below (fun m n => m.Raised below n ∧ m.Aloof) get get := by
  intro m n raised aloof m' o run
  cases run
  exact ⟨n, n, rfl, raised, aloof, raised, aloof⟩

theorem mirrors_ite {related : α → α → Prop} {p : Prop} [Decidable p] {x x' y y' : Exec α}
    (hx : Mirrors below related x x') (hy : Mirrors below related y y') :
    Mirrors below related (if p then x else y) (if p then x' else y') := by
  split
  · exact hx
  · exact hy

theorem Mirrors.completes {x y : Exec α} (h : Mirrors below Eq x y) : Completes below x y := by
  intro m n raised aloof a m' run _
  obtain ⟨b, n', ran, raised', _, rfl⟩ := h raised aloof run
  exact ⟨n', ran, raised'⟩

theorem completes_pure (a : α) : Completes below (pure a) (pure a) := (mirrors_pure rfl).completes

theorem completes_throw {e : Fault} {y : Exec α} : Completes below (throw e) y := by
  intro m n _ _ a m' run
  cases run

theorem completes_bind {related : α → α → Prop} {x y : Exec α} {f g : α → Exec β}
    (first : Mirrors below related x y)
    (rest : ∀ a b, related a b → Completes below (f a) (g b)) :
    Completes below (x >>= f) (y >>= g) := by
  intro m n raised aloof c o run room
  obtain ⟨a, m', ran, more⟩ := exists_of_bind run
  obtain ⟨b, n', ranRaised, raised', aloof', same⟩ := first raised aloof ran
  rw [bind_of_ok ranRaised]
  exact rest a b same raised' aloof' more room

/-- A result that is chosen at the end changes nothing. -/
theorem completes_bind_pure {x y : Exec α} (h : Completes below x y) (b : β) :
    Completes below (x >>= fun _ => pure b) (y >>= fun _ => pure b) := by
  intro m n raised aloof c o run room
  obtain ⟨a, m', ran, last⟩ := exists_of_bind run
  cases last
  obtain ⟨n', ranRaised, raised'⟩ := h raised aloof ran room
  rw [bind_of_ok ranRaised]
  exact ⟨n', rfl, raised'⟩

theorem completes_ite {p : Prop} [Decidable p] {x x' y y' : Exec α} (hx : Completes below x x')
    (hy : Completes below y y') : Completes below (if p then x else y) (if p then x' else y') := by
  split
  · exact hx
  · exact hy

theorem completes_modify {f : Machine → Machine}
    (h : ∀ m n : Machine, m.Raised below n → (f m).Raised below (f n)) :
    Completes below (modify f : Exec Unit) (modify f) := by
  intro m n raised _ a m' run _
  cases run
  exact ⟨f n, rfl, h m n raised⟩

/-- An action that changes the stack by `g`, and on the raised machine by `h`. -/
theorem completes_stack {g h : Stack → Except Fault Stack}
    (lift : ∀ ⦃s t u : Stack⦄, s.Raised below t → g s = .ok u →
      below.length + u.size ≤ stackCapacity → ∃ u', h t = .ok u' ∧ u.Raised below u') :
    Completes below
      (do
        let m ← get
        match g m.stack with
        | .ok stack => set { m with stack }
        | .error e => throw e)
      (do
        let m ← get
        match h m.stack with
        | .ok stack => set { m with stack }
        | .error e => throw e) := by
  intro m n raised _ a m' run room
  obtain ⟨t, stack, rfl⟩ := raised
  obtain ⟨_, _, got, changed⟩ := exists_of_bind run
  cases got
  cases result : g m.stack with
  | error e =>
    rw [result] at changed
    cases changed
  | ok u =>
    rw [result] at changed
    cases changed
    obtain ⟨u', resultRaised, raised'⟩ := lift stack result room
    refine ⟨{ m with stack := u' }, ?_, u', raised', rfl⟩
    rw [bind_get, resultRaised]
    rfl

/-! ### Actions on the operand stack -/

theorem completes_push (v : Value) : Completes below (push v) (push v) :=
  completes_stack fun _ _ _ raised pushed room => raised.push pushed room

theorem completes_retag (tag : Tag) : Completes below (retag tag) (retag tag) :=
  completes_stack fun _ _ _ raised retagged _ => raised.retag retagged

theorem completes_swap (i j : Nat) :
    Completes below (swap i j) (swap (i + below.length) (j + below.length)) :=
  completes_stack fun _ _ _ raised swapped _ => raised.swap swapped

theorem mirrors_pop :
    Mirrors below (fun v w => v = w ∧ IsOutside v.word.toNat) pop pop := by
  intro m n raised aloof v m' run
  obtain ⟨t, stack, rfl⟩ := raised
  obtain ⟨_, _, got, changed⟩ := exists_of_bind run
  cases got
  cases result : m.stack.pop with
  | error e =>
    rw [result] at changed
    cases changed
  | ok p =>
    obtain ⟨w, s⟩ := p
    rw [result] at changed
    cases changed
    obtain ⟨t', resultRaised, raised'⟩ := stack.pop result
    have live := (Stack.pop_eq_ok_iff.1 result).1
    have outside : ∀ u ∈ v :: s.live, IsOutside u.word.toNat := by
      rw [← live]
      exact aloof.outside
    refine ⟨v, { m with stack := t' }, ?_, ⟨t', raised', rfl⟩, ⟨?_, aloof.builtins⟩, rfl, ?_⟩
    · unfold pop
      rw [bind_get, resultRaised]
      rfl
    · intro u mem
      exact outside u (List.mem_cons_of_mem _ mem)
    · exact outside v List.mem_cons_self

theorem mirrors_top :
    Mirrors below (fun v w => v = w ∧ IsOutside v.word.toNat) top top := by
  intro m n raised aloof v m' run
  obtain ⟨t, stack, rfl⟩ := raised
  obtain ⟨_, _, got, found⟩ := exists_of_bind run
  cases got
  cases result : m.stack.top? with
  | none =>
    rw [result] at found
    cases found
  | some w =>
    rw [result] at found
    cases found
    refine ⟨v, { m with stack := t }, ?_, ⟨t, stack, rfl⟩, aloof, rfl, ?_⟩
    · unfold top
      rw [bind_get, stack.top? result]
      rfl
    · exact aloof.outside v (List.mem_of_mem_head? result)

theorem mirrors_popTyped (op : Op) (expected : Tag) :
    Mirrors below (fun v w => v = w ∧ IsOutside v.word.toNat) (popTyped op expected)
      (popTyped op expected) := by
  refine mirrors_bind mirrors_pop ?_
  rintro v _ ⟨rfl, outside⟩
  exact mirrors_ite (mirrors_pure ⟨rfl, outside⟩) mirrors_throw

theorem mirrors_popAddress (op : Op) :
    Mirrors below (fun a b => a = b ∧ IsOutside a) (popAddress op) (popAddress op) := by
  refine mirrors_bind (mirrors_popTyped op .ptr) ?_
  rintro v _ ⟨rfl, outside⟩
  exact mirrors_ite mirrors_throw (mirrors_pure ⟨rfl, outside⟩)

theorem mirrors_popText (op : Op) : Mirrors below Eq (popText op) (popText op) := by
  refine mirrors_bind (mirrors_popAddress op) ?_
  rintro address _ ⟨rfl, outside⟩
  refine mirrors_bind mirrors_get ?_
  rintro m n ⟨raised, -⟩
  exact mirrors_pure (raised.textAt outside).symm

/-- An index from the bottom is raised by the number of values below. -/
theorem mirrors_popIndex :
    Mirrors below (fun i j => j = i + below.length) popIndex popIndex := by
  refine mirrors_bind mirrors_pop ?_
  rintro v _ ⟨rfl, -⟩
  refine mirrors_bind mirrors_get ?_
  rintro m n ⟨⟨t, stack, rfl⟩, -⟩
  have depth := stack.size
  dsimp only
  split
  · exact mirrors_throw
  · rename_i inside
    rw [if_neg (by omega)]
    exact mirrors_pure (by omega)

theorem mirrors_byteCount (size : Value) :
    Mirrors below (fun a b => a = b ∧ a ≤ 8) (byteCount size) (byteCount size) := by
  unfold byteCount
  dsimp only
  split
  · exact mirrors_throw
  split
  · exact mirrors_throw
  · exact mirrors_pure ⟨rfl, by omega⟩

theorem mirrors_register (i : Instruction) : Mirrors below Eq (register i) (register i) := by
  unfold register
  split
  · exact mirrors_pure rfl
  · exact mirrors_throw

theorem completes_binary (f : Value → Value → Except Fault Value) :
    Completes below (binary f) (binary f) := by
  refine completes_bind mirrors_pop ?_
  rintro b _ ⟨rfl, -⟩
  refine completes_bind mirrors_pop ?_
  rintro a _ ⟨rfl, -⟩
  split
  · exact completes_push _
  · exact completes_throw

theorem completes_unary (f : Value → Value) : Completes below (unary f) (unary f) := by
  refine completes_bind mirrors_pop ?_
  rintro a _ ⟨rfl, -⟩
  exact completes_push _

/-! ### Actions on memory and registers -/

theorem completes_pushCell (made : Memory → Except Fault (Nat × Memory)) :
    Completes below (pushCell made) (pushCell made) := by
  intro m n raised aloof a m' run room
  obtain ⟨t, stack, rfl⟩ := raised
  obtain ⟨_, _, got, more⟩ := exists_of_bind run
  cases got
  cases result : made m.memory with
  | error e =>
    rw [result] at more
    cases more
  | ok p =>
    obtain ⟨address, memory⟩ := p
    rw [result] at more
    have raised : ({ m with memory } : Machine).Raised below { m with memory, stack := t } :=
      ⟨t, stack, rfl⟩
    obtain ⟨n', ran, raised'⟩ :=
      completes_push (.ptr address) raised ⟨aloof.outside, aloof.builtins⟩ more room
    refine ⟨n', ?_, raised'⟩
    unfold pushCell
    rw [bind_get, result]
    exact ran

theorem completes_pushOperand (i : Instruction) :
    Completes below (pushOperand i) (pushOperand i) := by
  unfold pushOperand
  split
  · refine completes_bind (mirrors_register i) ?_
    rintro r _ rfl
    refine completes_bind mirrors_get ?_
    rintro m n ⟨⟨t, -, rfl⟩, -⟩
    exact completes_push _
  · exact completes_push _

theorem completes_pushString (i : Instruction) :
    Completes below (pushString i) (pushString i) := by
  refine completes_bind mirrors_get ?_
  rintro m n ⟨⟨t, -, rfl⟩, -⟩
  dsimp only
  split
  · exact completes_pushCell _
  · exact completes_throw

theorem completes_load (i : Instruction) : Completes below (load i) (load i) := by
  refine completes_bind (mirrors_register i) ?_
  rintro r _ rfl
  have stored (v : Value) : Completes below
      (modify fun m => { m with registers := m.registers.set r v })
      (modify fun m => { m with registers := m.registers.set r v }) := by
    refine completes_modify ?_
    rintro m n ⟨t, stack, rfl⟩
    exact ⟨t, stack, rfl⟩
  dsimp only
  split
  · refine completes_bind mirrors_top ?_
    rintro v _ ⟨rfl, -⟩
    exact stored v
  · exact completes_bind (mirrors_pure rfl) fun v _ same => same ▸ stored v

theorem completes_dereference : Completes below dereference dereference := by
  refine completes_bind mirrors_top ?_
  rintro v _ ⟨rfl, outside⟩
  refine completes_ite completes_throw ?_
  refine completes_bind mirrors_get ?_
  rintro m n ⟨raised, -⟩
  rw [raised.bytesFrom outside]
  dsimp only
  split
  · exact completes_push _
  · exact completes_throw

theorem completes_allocate : Completes below allocate allocate := by
  refine completes_bind (mirrors_popTyped _ _) ?_
  rintro size _ ⟨rfl, -⟩
  exact completes_ite completes_throw (completes_pushCell _)

theorem completes_deallocate : Completes below deallocate deallocate := by
  refine completes_bind (mirrors_popTyped _ _) ?_
  rintro v _ ⟨rfl, -⟩
  intro m n raised aloof a m' run room
  obtain ⟨t, stack, rfl⟩ := raised
  obtain ⟨_, _, got, more⟩ := exists_of_bind run
  cases got
  cases result : m.memory.dealloc v.word.toNat with
  | error e =>
    rw [result] at more
    cases more
  | ok memory =>
    rw [result] at more
    cases more
    refine ⟨{ m with memory, stack := t }, ?_, t, stack, rfl⟩
    rw [bind_get, result]
    rfl

theorem completes_store : Completes below store store := by
  refine completes_bind mirrors_pop ?_
  rintro size _ ⟨rfl, -⟩
  refine completes_bind mirrors_pop ?_
  rintro v _ ⟨rfl, -⟩
  refine completes_ite completes_throw ?_
  refine completes_bind (mirrors_byteCount size) ?_
  rintro count _ ⟨rfl, atMost⟩
  refine completes_bind (mirrors_popAddress .write) ?_
  rintro address _ ⟨rfl, outside⟩
  refine completes_modify fun m n raised => raised.setBytes ?_
  have length := List.length_take_le count v.word.toBytes
  unfold IsOutside at outside
  omega

theorem completes_fetch : Completes below fetch fetch := by
  refine completes_bind (mirrors_popTyped _ _) ?_
  rintro code _ ⟨rfl, -⟩
  refine completes_bind mirrors_pop ?_
  rintro size _ ⟨rfl, -⟩
  refine completes_ite completes_throw ?_
  refine completes_bind (mirrors_byteCount size) ?_
  rintro count _ ⟨rfl, -⟩
  refine completes_bind (mirrors_popAddress .read) ?_
  rintro address _ ⟨rfl, outside⟩
  split
  · refine completes_bind mirrors_get ?_
    rintro m n ⟨raised, -⟩
    rw [raised.bytesFrom outside]
    exact completes_push _
  · exact completes_throw

/-! ### Output, the end of a run and native functions -/

theorem completes_write (bytes : List UInt8) : Completes below (write bytes) (write bytes) := by
  refine completes_modify ?_
  rintro m n ⟨t, stack, rfl⟩
  exact ⟨t, stack, rfl⟩

theorem completes_writeError (bytes : List UInt8) :
    Completes below (writeError bytes) (writeError bytes) := by
  refine completes_modify ?_
  rintro m n ⟨t, stack, rfl⟩
  exact ⟨t, stack, rfl⟩

theorem completes_haltWith (code : Int) : Completes below (haltWith code) (haltWith code) := by
  refine completes_modify ?_
  rintro m n ⟨t, stack, rfl⟩
  exact ⟨t, stack, rfl⟩

/-- The built-in functions take what they need from the top. -/
theorem completes_callNative {index : Int} (builtin : index = 0 ∨ index = 1) :
    Completes below (callNative index) (callNative index) := by
  refine completes_bind mirrors_get ?_
  rintro m n ⟨⟨t, -, rfl⟩, aloof⟩
  dsimp only
  rcases builtin with rfl | rfl
  · have found : (if 0 ≤ (0 : Int) then m.natives[(0 : Int).toNat]? else none) = some .write :=
      aloof.builtins.1
    rw [found]
    refine completes_bind mirrors_pop ?_
    rintro stream _ ⟨rfl, -⟩
    refine completes_bind (mirrors_popText .native) ?_
    rintro text _ rfl
    exact completes_ite (completes_write _) (completes_ite (completes_writeError _) completes_throw)
  · have found : (if 0 ≤ (1 : Int) then m.natives[(1 : Int).toNat]? else none) = some .exit :=
      aloof.builtins.2
    rw [found]
    refine completes_bind mirrors_pop ?_
    rintro code _ ⟨rfl, -⟩
    exact completes_haltWith _

theorem completes_loadLibrary : Completes below loadLibrary loadLibrary := by
  refine completes_bind (mirrors_popText .loadLib) ?_
  rintro library _ rfl
  refine completes_bind (mirrors_popText .loadLib) ?_
  rintro symbol _ rfl
  intro m n raised aloof a m' run room
  obtain ⟨t, stack, rfl⟩ := raised
  rw [bind_get] at run ⊢
  dsimp only at run ⊢
  cases loaded : m.loader library with
  | none =>
    rw [loaded] at run
    cases run
  | some functions =>
    rw [loaded] at run
    dsimp only at run ⊢
    cases found : functions symbol with
    | none =>
      rw [found] at run
      cases run
    | some f =>
      rw [found] at run
      dsimp only at run ⊢
      unfold Machine.addNative at run ⊢
      by_cases full : nativeCapacity ≤ m.natives.size
      · rw [if_pos full] at run
        cases run
      · rw [if_neg full] at run ⊢
        cases run
        exact ⟨_, rfl, t, stack, rfl⟩

/-- There is a topmost value to exchange, or the exchange fails. -/
theorem completes_swapTop (i : Nat) :
    Completes below (do swap i ((← get).stack.size - 1))
      (do swap (i + below.length) ((← get).stack.size - 1)) := by
  intro m n raised aloof a m' run room
  obtain ⟨t, stack, rfl⟩ := raised
  have depth := stack.size
  rw [bind_get] at run ⊢
  rcases Nat.eq_zero_or_pos m.stack.size with empty | pos
  · have fails : m.stack.swap i (m.stack.size - 1) = .error .stackUnderflow := by
      unfold Stack.swap Stack.get?
      rw [empty]
      rfl
    unfold swap at run
    rw [bind_get, fails] at run
    cases run
  · have top : t.size - 1 = m.stack.size - 1 + below.length := by omega
    dsimp only
    rw [top]
    exact completes_swap i _ ⟨t, stack, rfl⟩ aloof run room

/-- The effect of an instruction, `ss`, `ref` and other native functions apart. -/
theorem completes_effect {i : Instruction} (depth : i.op ≠ .ss) (slot : i.op ≠ .ref)
    (builtin : i.op = .native → i.value.toInt = 0 ∨ i.value.toInt = 1) :
    Completes below (effect i) (effect i) := by
  unfold effect
  cases op : i.op with
  | push => exact completes_pushOperand i
  | pushStr => exact completes_pushString i
  | mov => exact completes_load i
  | ref => exact absurd op slot
  | deref => exact completes_dereference
  | alloc => exact completes_allocate
  | dealloc => exact completes_deallocate
  | write => exact completes_store
  | read => exact completes_fetch
  | pop => exact completes_bind mirrors_pop fun _ _ _ => completes_pure _
  | dup =>
    refine completes_bind mirrors_top ?_
    rintro v _ ⟨rfl, -⟩
    exact completes_push v
  | indup =>
    refine completes_bind mirrors_popIndex ?_
    rintro i _ rfl
    refine completes_bind mirrors_get ?_
    rintro m n ⟨⟨t, stack, rfl⟩, -⟩
    cases found : m.stack.get? i with
    | none => exact completes_throw
    | some v =>
      dsimp only
      rw [stack.get? found]
      exact completes_push v
  | swap =>
    refine completes_bind mirrors_get ?_
    rintro m n ⟨⟨t, stack, rfl⟩, -⟩
    have depth := stack.size
    dsimp only
    split
    · exact completes_throw
    · rename_i two
      have upper : t.size - 1 = m.stack.size - 1 + below.length := by omega
      have lower : t.size - 2 = m.stack.size - 2 + below.length := by omega
      rw [if_neg (by omega), upper, lower]
      exact completes_swap _ _
  | inswap =>
    refine completes_bind mirrors_popIndex ?_
    rintro i _ rfl
    exact completes_swapTop i
  | itof | ftoi | itoc => exact completes_unary _
  | toi | tof | toc | tovp => exact completes_retag _
  | print =>
    refine completes_bind mirrors_pop ?_
    rintro v _ ⟨rfl, -⟩
    exact completes_write _
  | native => exact completes_callNative (builtin op)
  | entrypoint => exact completes_throw
  | loadLib => exact completes_loadLibrary
  | ss => exact absurd op depth
  | halt => exact completes_haltWith 0
  | nop | call | ret | jmp | zjmp | nzjmp => exact completes_pure _
  | _ => exact completes_binary _

end Exec

end StackLang
