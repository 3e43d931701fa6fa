import StackLang.Machine.Fault

/-!
# The operand stack

A stack has a fixed number of slots. The live values are kept top first; the slots above the top
keep what was popped from them, nearest first, because an address of such a slot can still be
read. A push takes the nearest free slot and a pop gives one back, so the number of slots never
changes, and neither operation touches the values below.
-/

namespace StackLang

/-- A stack of values in a fixed number of slots. -/
structure Stack where
  /-- The values, top first. -/
  live : List Value
  /-- What the free slots hold, the nearest to the top first. -/
  free : List Value
deriving DecidableEq, Repr

namespace Stack

/-- The stack without values and with `capacity` slots. -/
def empty (capacity : Nat) : Stack := ⟨[], List.replicate capacity (.int 0)⟩

/-- The number of values. -/
def size (s : Stack) : Nat := s.live.length

/-- The number of slots. -/
def capacity (s : Stack) : Nat := s.live.length + s.free.length

/-- Whether there are no values. -/
def isEmpty (s : Stack) : Bool := s.live.isEmpty

/-- The values, bottom first. -/
def values (s : Stack) : List Value := s.live.reverse

/-- The topmost value. -/
def top? (s : Stack) : Option Value := s.live.head?

/-- Puts a value on top. -/
def push (s : Stack) (v : Value) : Except Fault Stack :=
  match s.free with
  | [] => .error .stackOverflow
  | _ :: free => .ok ⟨v :: s.live, free⟩

/-- Takes the topmost value. -/
def pop (s : Stack) : Except Fault (Value × Stack) :=
  match s.live with
  | [] => .error .stackUnderflow
  | v :: live => .ok (v, ⟨live, v :: s.free⟩)

/-- The value at an index counted from the bottom. -/
def get? (s : Stack) (i : Nat) : Option Value :=
  if i < s.size then s.live[s.size - 1 - i]? else none

/-- The number of bytes of a slot. -/
def slotSize : Nat := 16

/-- The offset in bytes of the slot of a value, counted from the bottom slot. -/
def offset? (s : Stack) (i : Nat) : Option Nat :=
  if i < s.size then some (slotSize * i) else none

/-- Exchanges the values at two indices counted from the bottom. -/
def swap (s : Stack) (i j : Nat) : Except Fault Stack :=
  match s.get? i, s.get? j with
  | some v, some w =>
    .ok { s with live := (s.live.set (s.size - 1 - i) w).set (s.size - 1 - j) v }
  | _, _ => .error .stackUnderflow

/-- Changes the tag of the topmost value. -/
def retag (s : Stack) (tag : Tag) : Except Fault Stack :=
  match s.live with
  | [] => .error .stackUnderflow
  | v :: live => .ok { s with live := { v with tag } :: live }

/-- The bytes of a slot: the word, the code of the tag, and padding that reads as zero. -/
def slotBytes (v : Value) : List UInt8 :=
  v.word.toBytes ++ UInt8.ofNat v.tag.code :: List.replicate 7 0

/-- The bytes from an offset on to the end of the last slot. -/
def bytesFrom (s : Stack) (offset : Nat) : List UInt8 :=
  (((s.values ++ s.free).drop (offset / slotSize)).flatMap slotBytes).drop (offset % slotSize)

/-- A value with one byte of its slot replaced. Padding holds nothing, and a byte that is the code
of no tag leaves the tag alone. -/
def setSlotByte (v : Value) (i : Nat) (b : UInt8) : Value :=
  if i < 8 then { v with word := .ofBytes (v.word.toBytes.set i b) }
  else if i = 8 then { v with tag := (Tag.ofCode? b.toNat).getD v.tag }
  else v

/-- Replaces the byte at an offset. -/
def setByte (s : Stack) (offset : Nat) (b : UInt8) : Stack :=
  let i := offset / slotSize
  let change (v : Value) : Value := setSlotByte v (offset % slotSize) b
  if i < s.size then { s with live := s.live.modify (s.size - 1 - i) change }
  else { s with free := s.free.modify (i - s.size) change }

@[simp] theorem size_empty (capacity : Nat) : (empty capacity).size = 0 := rfl

@[simp] theorem capacity_empty (n : Nat) : (empty n).capacity = n := by
  simp [empty, capacity]

theorem push_eq_ok_iff {s t : Stack} {v : Value} :
    s.push v = .ok t ↔ ∃ w, s.free = w :: t.free ∧ t.live = v :: s.live := by
  unfold push
  cases s.free with
  | nil => simp
  | cons w free =>
    constructor
    · intro h
      cases h
      exact ⟨w, rfl, rfl⟩
    · rintro ⟨_, h, hl⟩
      cases h
      cases t
      cases hl
      rfl

theorem pop_eq_ok_iff {s t : Stack} {v : Value} :
    s.pop = .ok (v, t) ↔ s.live = v :: t.live ∧ t.free = v :: s.free := by
  unfold pop
  cases s.live with
  | nil => simp
  | cons w live =>
    constructor
    · intro h
      cases h
      exact ⟨rfl, rfl⟩
    · rintro ⟨hl, hf⟩
      cases hl
      cases t
      cases hf
      rfl

theorem push_eq_error_iff {s : Stack} {v : Value} {e : Fault} :
    s.push v = .error e ↔ s.free = [] ∧ e = .stackOverflow := by
  unfold push
  cases s.free <;> simp [eq_comm]

theorem pop_eq_error_iff {s : Stack} {e : Fault} :
    s.pop = .error e ↔ s.live = [] ∧ e = .stackUnderflow := by
  unfold pop
  cases s.live <;> simp [eq_comm]

theorem pop_of_push {s t : Stack} {v : Value} (h : s.push v = .ok t) :
    ∃ u, t.pop = .ok (v, u) ∧ u.live = s.live := by
  obtain ⟨_, _, hl⟩ := push_eq_ok_iff.1 h
  exact ⟨⟨s.live, v :: t.free⟩, pop_eq_ok_iff.2 ⟨hl, rfl⟩, rfl⟩

end Stack

end StackLang
