/-!
# Arenas

An arena hands out positions. An item is never removed, so a position stays good as long as the
arena does: `get?` finds what was allocated or last set there.
-/

namespace StackLang

/-- A row of items that only grows. -/
structure Arena (α : Type) where
  items : Array α := #[]
deriving Repr

namespace Arena

variable {α : Type}

/-- The arena without items. -/
def empty : Arena α := ⟨#[]⟩

/-- The number of items. -/
def size (a : Arena α) : Nat := a.items.size

/-- Whether there are no items. -/
def isEmpty (a : Arena α) : Bool := a.items.isEmpty

/-- The position of a new item, and the arena with it. -/
def alloc (a : Arena α) (x : α) : Nat × Arena α := (a.items.size, ⟨a.items.push x⟩)

/-- The item at a position. -/
def get? (a : Arena α) (i : Nat) : Option α := a.items[i]?

/-- Replaces the item at a position; a position without an item changes nothing. -/
def set (a : Arena α) (i : Nat) (x : α) : Arena α := ⟨a.items.setIfInBounds i x⟩

/-- Changes the item at a position. -/
def modify (a : Arena α) (i : Nat) (f : α → α) : Arena α := ⟨a.items.modify i f⟩

/-- The items in the order of their positions. -/
def toList (a : Arena α) : List α := a.items.toList

@[simp] theorem toList_alloc (a : Arena α) (x : α) :
    (a.alloc x).2.toList = a.toList ++ [x] := by
  simp [alloc, toList]

@[simp] theorem fst_alloc (a : Arena α) (x : α) : (a.alloc x).1 = a.size := rfl

theorem get?_eq_getElem? (a : Arena α) (i : Nat) : a.get? i = a.toList[i]? := by
  simp [get?, toList]

theorem get?_eq_none_iff {a : Arena α} {i : Nat} : a.get? i = none ↔ a.size ≤ i :=
  Array.getElem?_eq_none_iff

theorem get?_set (a : Arena α) (i j : Nat) (x : α) :
    (a.set i x).get? j = if i = j ∧ j < a.size then some x else a.get? j := by
  simp only [get?, set, size, Array.getElem?_setIfInBounds]
  by_cases h : i = j
  · subst h
    by_cases hi : i < a.items.size <;> simp [hi]
  · simp [h]

theorem get?_alloc (a : Arena α) (x : α) (j : Nat) :
    (a.alloc x).2.get? j = if j = a.size then some x else a.get? j :=
  Array.getElem?_push

theorem get?_modify (a : Arena α) (i j : Nat) (f : α → α) :
    (a.modify i f).get? j = if i = j then (a.get? j).map f else a.get? j := by
  simp only [get?, modify, Array.getElem?_modify]

@[simp] theorem size_alloc (a : Arena α) (x : α) : (a.alloc x).2.size = a.size + 1 := by
  simp [alloc, size]

@[simp] theorem size_set (a : Arena α) (i : Nat) (x : α) : (a.set i x).size = a.size := by
  simp [set, size]

@[simp] theorem size_modify (a : Arena α) (i : Nat) (f : α → α) :
    (a.modify i f).size = a.size := by
  simp [modify, size]

end Arena

end StackLang
