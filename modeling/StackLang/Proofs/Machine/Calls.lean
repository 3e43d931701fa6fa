import StackLang.Proofs.Machine.Bounds

/-!
# Calls return to their caller

From one moment to the next the return stack stays as it is, gets the index of a call on top, or
loses its top to a return. So from a call on its index stays where the call put it, under the
indices of the calls that come later, until a return takes it, and this return goes on behind the
call. Nothing that happens in between can change that: not the calls and returns inside, not a
jump out of the routine, not a native function, and not a step that fails.
-/

namespace StackLang.Machine

open Bytecode

/-- What becomes of a machine in one moment: it makes a step, whatever that gives, or its native
table gets another function. -/
inductive Proceeds (m : Machine) : Machine → Prop where
  | step {n : Machine} {e : Option Fault} (run : m.step = (e, n)) : Proceeds m n
  | add {n : Machine} {f : Native} {index : Nat} (added : m.addNative f = .ok (index, n)) :
      Proceeds m n

variable {m n : Machine}

theorem proceeds_after (m : Machine) (count : Nat) :
    (m.after count).Proceeds (m.after (count + 1)) :=
  .step (e := (m.after count).step.1) rfl

/-! ## One moment -/

/-- What an instruction can do to the return stack. -/
theorem returns_of_move {i : Instruction} {e : Option Fault} (h : m.Move i e n) :
    n.returns = m.returns ∨ n.returns = m.ip :: m.returns ∨
      ∃ caller, m.returns = caller :: n.returns ∧ n.ip = caller + 1 := by
  cases h with
  | fault frame => exact .inl frame.returns
  | next _ frame => exact .inl frame.returns
  | jump _ frame => exact .inl frame.returns
  | call => exact .inr (.inl rfl)
  | ret _ called => exact .inr (.inr ⟨_, called, rfl⟩)

theorem returns_of_proceeds (h : m.Proceeds n) :
    n.returns = m.returns ∨ n.returns = m.ip :: m.returns ∨
      ∃ caller, m.returns = caller :: n.returns ∧ n.ip = caller + 1 := by
  cases h with
  | step run =>
    rcases step_cases run with ⟨_, _, rfl⟩ | ⟨i, _, _, move⟩
    · exact .inl rfl
    · exact returns_of_move move
  | add added => exact .inl (frame_of_addNative added).returns

/-- A call that succeeds puts its index on the return stack. -/
theorem returns_of_call {i : Instruction} (found : m.program.code[m.ip]? = some i)
    (op : i.op = .call) (entered : m.step = (none, n)) : n.returns = m.ip :: m.returns := by
  rcases step_cases entered with ⟨_, failed, _⟩ | ⟨j, here, _, move⟩
  · cases failed
  obtain rfl : i = j := Option.some.inj (found.symm.trans here)
  cases move with
  | next other => exact absurd op other.1
  | jump other => exact absurd op other.2
  | call => rfl
  | ret other => cases op.symm.trans other

/-! ## From a call to its return -/

variable {caller : Nat} {returns : List Nat}

/-- Inside a call, the next moment is inside it too or the one after its return. -/
theorem inside_or_returned (inside : (caller :: returns) <:+ m.returns) (h : m.Proceeds n) :
    (caller :: returns) <:+ n.returns ∨ n.returns = returns ∧ n.ip = caller + 1 := by
  rcases returns_of_proceeds h with same | entered | ⟨last, left, next⟩
  · left
    rw [same]
    exact inside
  · left
    rw [entered]
    exact inside.trans (List.suffix_cons _ _)
  · rw [left, List.suffix_cons_iff] at inside
    rcases inside with top | deeper
    · -- The return takes the index of the call itself.
      right
      rw [List.cons.injEq] at top
      obtain ⟨rfl, rfl⟩ := top
      exact ⟨rfl, next⟩
    · exact .inl deeper

theorem length_ne_of_inside (inside : (caller :: returns) <:+ m.returns) :
    m.returns.length ≠ returns.length := by
  have longer := inside.length_le
  rw [List.length_cons] at longer
  omega

/-- A run stays inside a call up to the moment in which the return stack is as long again as it was
before. -/
theorem inside_of_run {run : Nat → Machine} {k : Nat}
    (inside : (caller :: returns) <:+ (run 0).returns)
    (proceeds : ∀ j < k, (run j).Proceeds (run (j + 1)))
    (longer : ∀ j ≤ k, (run j).returns.length ≠ returns.length) :
    (caller :: returns) <:+ (run k).returns := by
  induction k with
  | zero => exact inside
  | succ k ih =>
    have before : (caller :: returns) <:+ (run k).returns :=
      ih (fun j lt => proceeds j (by omega)) (fun j le => longer j (by omega))
    rcases inside_or_returned before (proceeds k (by omega)) with still | ⟨back, _⟩
    · exact still
    · exact absurd (congrArg List.length back) (longer (k + 1) (by omega))

/-- **Calls return to their caller.** Let a call succeed on any machine, and let it go on in any way
for any number `k` of moments. While the return stack has not shrunk back to its length before the
call, it ends with the index of the call and what it held before. In the first moment in which it
has that length again, it is what it was before the call, and the instruction behind the call
comes next. -/
theorem call_returns {i : Instruction} {run : Nat → Machine} {k : Nat}
    (found : m.program.code[m.ip]? = some i) (op : i.op = .call)
    (entered : m.step = (none, run 0)) (proceeds : ∀ j < k, (run j).Proceeds (run (j + 1))) :
    ((∀ j ≤ k, (run j).returns.length ≠ m.returns.length) →
      (m.ip :: m.returns) <:+ (run k).returns) ∧
    ((∀ j < k, (run j).returns.length ≠ m.returns.length) →
      (run k).returns.length = m.returns.length →
      (run k).returns = m.returns ∧ (run k).ip = m.ip + 1) := by
  have inside : (m.ip :: m.returns) <:+ (run 0).returns :=
    ⟨[], (returns_of_call found op entered).symm⟩
  constructor
  · intro longer
    exact inside_of_run inside proceeds longer
  · intro longer back
    cases k with
    | zero => exact absurd back (length_ne_of_inside inside)
    | succ k =>
      have before : (m.ip :: m.returns) <:+ (run k).returns :=
        inside_of_run inside (fun j lt => proceeds j (by omega)) (fun j le => longer j (by omega))
      rcases inside_or_returned before (proceeds k (by omega)) with still | returned
      · exact absurd back (length_ne_of_inside still)
      · exact returned

/-- A routine that calls another one. -/
def nested : Program where
  entrypoint := 1
  code := #[{ op := .nop }, { op := .call, value := .ofNat 3 }, { op := .halt },
    { op := .call, value := .ofNat 5 }, { op := .ret }, { op := .ret }]

/-- The machine in front of the outer call. -/
def calling : Machine := start nested .none

/-- The outer call comes back in the third moment after it. -/
theorem call_returns_nested :
    calling.program.code[calling.ip]? = some { op := .call, value := .ofNat 3 } ∧
      calling.step = (none, calling.after 1) ∧
      (∀ j < 3, (calling.after (j + 1)).returns.length ≠ calling.returns.length) ∧
      (calling.after 2).returns = [3, 1] ∧ [1] <:+ (calling.after 3).returns ∧
      (calling.after 4).returns = [] ∧ (calling.after 4).ip = 2 := by
  let run (k : Nat) : Machine := calling.after (k + 1)
  have here : calling.ip = 1 := rfl
  have found : calling.program.code[calling.ip]? = some { op := .call, value := .ofNat 3 } := rfl
  have entered : calling.step = (none, run 0) := rfl
  have proceeds (j : Nat) : (run j).Proceeds (run (j + 1)) := calling.proceeds_after (j + 1)
  have before : calling.returns = [] := rfl
  have first : (run 0).returns = [1] := rfl
  have second : (run 1).returns = [3, 1] := rfl
  have third : (run 2).returns = [1] := rfl
  have longer : ∀ j < 3, (run j).returns.length ≠ calling.returns.length := by
    intro j lt
    obtain rfl | rfl | rfl : j = 0 ∨ j = 1 ∨ j = 2 := by omega
    · simp [first, before]
    · simp [second, before]
    · simp [third, before]
  have inside := (call_returns found rfl entered (k := 2) fun j _ => proceeds j).1
    fun j le => longer j (by omega)
  have back := (call_returns found rfl entered (k := 3) fun j _ => proceeds j).2 longer rfl
  rw [here, before] at inside back
  exact ⟨found, entered, longer, second, inside, back.1, back.2⟩

end StackLang.Machine
