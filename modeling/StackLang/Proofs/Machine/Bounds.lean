import StackLang.Proofs.Machine.Runs

/-!
# The bounds of a machine

Both stacks and the native table keep within their capacities, the next instruction is one of the
program or the place just behind it, and a return goes to a call. The last is what a machine has
to remember for `ret`: the return stack holds indices of calls of the program and of nothing else.
-/

namespace StackLang.Machine

open Bytecode

/-- A machine of the program `p` within its bounds. -/
structure Bounded (p : Program) (m : Machine) : Prop where
  program : m.program = p
  slots : m.stack.capacity = stackCapacity
  stack : m.stack.size ≤ stackCapacity
  returns : m.returns.length ≤ returnCapacity
  calls : ∀ caller ∈ m.returns, ∃ i, p.code[caller]? = some i ∧ i.op = .call
  builtin : 2 ≤ m.natives.size
  natives : m.natives.size ≤ nativeCapacity
  ip : m.ip ≤ p.code.size
  pending : m.pending = none

variable {p : Program}

theorem bounded_start (loader : Loader) (entry : p.entrypoint ≤ p.code.size) :
    Bounded p (start p loader) where
  program := rfl
  slots := Stack.capacity_empty _
  stack := by simp [start]
  returns := Nat.zero_le _
  calls := by simp [start]
  builtin := Nat.le_refl _
  natives := by simp [start, nativeCapacity]
  ip := entry
  pending := rfl

/-- An effect keeps a machine within its bounds. -/
theorem Bounded.frame {m n : Machine} (b : Bounded p m) (h : m.Frame n) : Bounded p n where
  program := h.program.trans b.program
  slots := h.slots.trans b.slots
  stack := by
    have := n.stack.size_le_capacity
    rw [h.slots, b.slots] at this
    exact this
  returns := h.returns ▸ b.returns
  calls := h.returns ▸ b.calls
  builtin := by
    have := h.natives.length_le
    simp only [Array.length_toList] at this
    exact Nat.le_trans b.builtin this
  natives := h.room b.natives
  ip := h.ip ▸ b.ip
  pending := h.pending b.pending

/-- An instruction of the program keeps a machine within its bounds. -/
theorem Bounded.move {m n : Machine} {i : Instruction} {e : Option Fault} (b : Bounded p m)
    (found : m.program.code[m.ip]? = some i) (h : m.Move i e n) : Bounded p n := by
  have inside : m.ip < p.code.size := by
    rw [← b.program]
    exact (Array.getElem?_eq_some_iff.1 found).1
  cases h with
  | fault frame => exact b.frame frame
  | next op frame => exact { b.frame frame with ip := inside }
  | jump op frame operand nonzero target =>
    exact { b.frame frame with ip := Nat.le_of_lt (b.program ▸ target) }
  | call op room operand nonzero target =>
    refine { b with returns := room, calls := ?_, ip := Nat.le_of_lt (b.program ▸ target) }
    intro caller mem
    cases mem with
    | head => exact ⟨i, b.program ▸ found, op⟩
    | tail _ mem => exact b.calls caller mem
  | @ret caller returns op called =>
    have length := b.returns
    have calls := b.calls
    rw [called] at length calls
    -- A return goes behind a call of the program, which is at most behind its end.
    obtain ⟨_, atCaller, _⟩ := calls caller List.mem_cons_self
    exact { b with
      returns := Nat.le_of_succ_le length
      calls := fun c mem => calls c (List.mem_cons_of_mem _ mem)
      ip := (Array.getElem?_eq_some_iff.1 atCaller).1 }

theorem Bounded.step {m n : Machine} {e : Option Fault} (b : Bounded p m)
    (h : m.step = (e, n)) : Bounded p n := by
  rcases step_cases h with ⟨_, _, rfl⟩ | ⟨i, found, _, move⟩
  · exact b
  · exact b.move found move

theorem Bounded.runs {m n : Machine} {done : List Nat} (b : Bounded p m) (run : m.Runs done n) :
    Bounded p n := by
  induction run with
  | refl => exact b
  | succeed _ step ih => exact ih.step step
  | fail _ step ih => exact ih.step step
  | add _ added ih => exact ih.frame (frame_of_addNative added)

/-! ## Behind the first instruction -/

theorem ip_pos_of_move {m n : Machine} {i : Instruction} (h : m.Move i none n) : 1 ≤ n.ip := by
  cases h with
  | next => exact Nat.le_add_left 1 _
  | jump _ _ _ nonzero => exact Nat.one_le_iff_ne_zero.2 nonzero
  | call _ _ _ nonzero => exact Nat.one_le_iff_ne_zero.2 nonzero
  | ret => exact Nat.le_add_left 1 _

theorem ip_of_step_fault {m n : Machine} {e : Fault} (h : m.step = (some e, n)) :
    n.ip = m.ip := by
  rcases step_cases h with ⟨_, _, rfl⟩ | ⟨i, _, _, move⟩
  · rfl
  · cases move with
    | fault frame => exact frame.ip

theorem ip_pos_of_step {m n : Machine} (h : m.step = (none, n)) : 1 ≤ n.ip := by
  rcases step_cases h with ⟨_, e, _⟩ | ⟨i, _, _, move⟩
  · cases e
  · exact ip_pos_of_move move

/-- Once an instruction has succeeded, the first one of the program does not come again. -/
theorem ip_pos_of_runs {m n : Machine} {done : List Nat} (run : m.Runs done n)
    (some : done ≠ []) : 1 ≤ n.ip := by
  induction run with
  | refl => exact absurd rfl some
  | succeed _ step _ => exact ip_pos_of_step step
  | fail _ step ih => rw [ip_of_step_fault step]; exact ih some
  | add _ added ih => rw [(frame_of_addNative added).ip]; exact ih some

theorem zero_notMem_of_runs {m n : Machine} {done : List Nat} (run : m.Runs done n) :
    0 ∉ done.dropLast := by
  induction run with
  | refl => simp
  | fail _ _ ih => exact ih
  | add _ _ ih => exact ih
  | @succeed n o done before _ ih =>
    cases done with
    | nil => simp
    | cons last earlier =>
      have pos := ip_pos_of_runs before (List.cons_ne_nil _ _)
      rw [List.dropLast_cons_of_ne_nil (List.cons_ne_nil _ _), List.mem_cons]
      rintro (zero | again)
      · omega
      · exact ih again

/-! ## The native table -/

theorem natives_of_move {m n : Machine} {i : Instruction} {e : Option Fault}
    (h : m.Move i e n) : m.natives.toList <+: n.natives.toList := by
  cases h with
  | fault frame => exact frame.natives
  | next _ frame => exact frame.natives
  | jump _ frame => exact frame.natives
  | call => exact List.prefix_rfl
  | ret => exact List.prefix_rfl

theorem natives_of_step {m n : Machine} {e : Option Fault} (h : m.step = (e, n)) :
    m.natives.toList <+: n.natives.toList := by
  rcases step_cases h with ⟨_, _, rfl⟩ | ⟨i, _, _, move⟩
  · exact List.prefix_rfl
  · exact natives_of_move move

theorem natives_of_runs {m n : Machine} {done : List Nat} (run : m.Runs done n) :
    m.natives.toList <+: n.natives.toList := by
  induction run with
  | refl => exact List.prefix_rfl
  | succeed _ step ih => exact ih.trans (natives_of_step step)
  | fail _ step ih => exact ih.trans (natives_of_step step)
  | add _ added ih => exact ih.trans (frame_of_addNative added).natives

/-- An index of the native table goes on to mean the same function. -/
theorem native_of_runs {m n : Machine} {done : List Nat} (run : m.Runs done n) {index : Nat}
    {f : Native} (h : m.natives[index]? = some f) : n.natives[index]? = some f := by
  obtain ⟨more, table⟩ := natives_of_runs run
  rw [← Array.getElem?_toList] at h ⊢
  rw [← table, List.getElem?_append_left (List.getElem?_eq_some_iff.1 h).1, h]

theorem native_of_addNative {m n : Machine} {f : Native} {index : Nat}
    (h : m.addNative f = .ok (index, n)) : n.natives[index]? = some f := by
  unfold addNative at h
  split at h
  · cases h
  · cases h
    simp

/-- **The bounds of every run.** Whatever steps a machine makes from the start of a program, and
whatever is added to its native table in between, it stays within its bounds, does not come back
to the first instruction, and keeps the meaning of every index of the table. -/
theorem bounded_of_runs {loader : Loader} {m : Machine} {done : List Nat}
    (entry : p.entrypoint ≤ p.code.size) (run : (start p loader).Runs done m) :
    Bounded p m ∧ (done ≠ [] → 1 ≤ m.ip) ∧ 0 ∉ done.dropLast ∧
    (∀ (f : Native) (index : Nat) (n : Machine), m.addNative f = .ok (index, n) →
      n.natives[index]? = some f) ∧
    (∀ (later : List Nat) (n : Machine), m.Runs later n → ∀ (index : Nat) (f : Native),
      m.natives[index]? = some f → n.natives[index]? = some f) := by
  have bounds := (bounded_start loader entry).runs run
  refine ⟨bounds, ip_pos_of_runs run, zero_notMem_of_runs run, ?_, ?_⟩
  · intro f index n added
    exact native_of_addNative added
  · intro later n run index f h
    exact native_of_runs run h

/-- A program that starts with a call. -/
def caller : Program where
  entrypoint := 1
  code := #[{ op := .nop }, { op := .call, value := .ofNat 3 }, { op := .halt }, { op := .ret }]

theorem step_caller :
    (start caller .none).step = (none, { start caller .none with returns := [1], ip := 3 }) := rfl

theorem bounded_of_runs_caller :
    caller.entrypoint ≤ caller.code.size ∧ ∃ m,
      (start caller .none).Runs [1] m ∧ m.returns = [1] ∧ Bounded caller m ∧ 1 ≤ m.ip := by
  have run := Runs.succeed (.refl (start caller .none)) step_caller
  have bounds := bounded_of_runs (by decide) run
  exact ⟨by decide, _, run, rfl, bounds.1, bounds.2.1 (by simp)⟩

end StackLang.Machine
