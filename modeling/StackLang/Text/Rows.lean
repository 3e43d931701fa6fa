/-!
# Rows of bytes

A text is a list of rows with a line feed between each two of them. `rows` always gives one row at
least; `inputLines` is what a reader of whole lines gets, who does not see an empty last row.
-/

namespace StackLang.Text

/-- The byte that ends a row. -/
def lineFeed : UInt8 := 0x0A

/-- The rows between the line feeds. -/
def rows : List UInt8 → List (List UInt8)
  | [] => [[]]
  | b :: rest =>
    if b = lineFeed then [] :: rows rest
    else
      match rows rest with
      | row :: more => (b :: row) :: more
      | [] => [[b]]

/-- The rows that a reader of lines gets, without their line feeds. -/
def inputLines (bytes : List UInt8) : List (List UInt8) :=
  let all := rows bytes
  if all.getLast? = some [] then all.dropLast else all

theorem rows_ne_nil (bytes : List UInt8) : rows bytes ≠ [] := by
  cases bytes with
  | nil => simp [rows]
  | cons b rest =>
    rw [rows]
    split
    · simp
    · split <;> simp

end StackLang.Text
