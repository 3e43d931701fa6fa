import Mathlib.Tactic.IntervalCases
import StackLang.Numeric.Numeral

/-!
# Numerals that are read back

The digits of a natural in a radix up to sixteen are a numeral, and the numeral has the natural
as its value. A whole numeral is read exactly, `whole?_eq_some_iff`, and what the saturating reader
gives is its value up to the greatest integer, `saturating_eq`.
-/

namespace StackLang.Numeric.Numeral

theorem digit?_digitChar {radix d : Nat} (lt : d < radix) (small : radix ≤ 16) :
    digit? radix (Nat.digitChar d) = some d := by
  have : d < 16 := by omega
  interval_cases d <;> simp [digit?, Nat.digitChar, lt]

theorem value_append (radix : Nat) (ds : List Nat) (d : Nat) :
    value radix (ds ++ [d]) = value radix ds * radix + d := by
  simp [value]

/-- A text of digits only. -/
theorem leadingDigits_of_map {radix : Nat} {text : List Char} {ds : List Nat}
    (h : text.map (digit? radix) = ds.map some) : leadingDigits radix text = ds := by
  induction text generalizing ds with
  | nil =>
    rw [List.map_nil, eq_comm, List.map_eq_nil_iff] at h
    rw [h]
    rfl
  | cons c rest ih =>
    cases ds with
    | nil => simp at h
    | cons d ds =>
      rw [List.map_cons, List.map_cons, List.cons.injEq] at h
      rw [leadingDigits, h.1]
      simp only [ih h.2]

theorem whole?_of_map {radix : Nat} {text : List Char} {ds : List Nat}
    (h : text.map (digit? radix) = ds.map some) (nonempty : text ≠ []) :
    whole? radix text = some (value radix ds) := by
  have length := congrArg List.length h
  simp only [List.length_map] at length
  simp [whole?, leadingDigits_of_map h, length, nonempty]

/-- The digits that a natural is written with. -/
theorem exists_digits {radix : Nat} (large : 1 < radix) (n : Nat) :
    ∃ ds, Nat.toDigits radix n = ds.map Nat.digitChar ∧ (∀ d ∈ ds, d < radix) ∧
      value radix ds = n := by
  induction n using Nat.strongRecOn with
  | ind n ih =>
    by_cases lt : n < radix
    · refine ⟨[n], ?_, by simpa using lt, by simp [value]⟩
      rw [Nat.toDigits_of_lt_base lt, List.map_singleton]
    · have le := Nat.not_lt.1 lt
      obtain ⟨ds, digits, small, valued⟩ := ih (n / radix) (Nat.div_lt_self (by omega) large)
      refine ⟨ds ++ [n % radix], ?_, ?_, ?_⟩
      · rw [Nat.toDigits_of_base_le large le, digits, List.map_append, List.map_singleton]
      · intro d mem
        rcases List.mem_append.1 mem with mem | mem
        · exact small d mem
        · rw [List.mem_singleton.1 mem]
          exact Nat.mod_lt n (by omega)
      · rw [value_append, valued]
        exact Nat.div_add_mod' n radix

theorem whole?_toDigits {radix : Nat} (large : 1 < radix) (small : radix ≤ 16) (n : Nat) :
    whole? radix (Nat.toDigits radix n) = some n := by
  obtain ⟨ds, digits, lt, valued⟩ := exists_digits large n
  have read : (Nat.toDigits radix n).map (digit? radix) = ds.map some := by
    rw [digits, List.map_map]
    exact List.map_congr_left fun d mem => digit?_digitChar (lt d mem) small
  rw [whole?_of_map read Nat.toDigits_ne_nil, valued]

theorem word?_toDigits (radix : Nat) (large : 1 < radix) (small : radix ≤ 16) {n : Nat}
    (lt : n < 2 ^ 64) : word? radix (Nat.toDigits radix n) = some n := by
  rw [word?, whole?_toDigits large small]
  simpa using lt

/-- What holds of each of the sixteen digits holds of every digit of a natural. -/
theorem forall_mem_toDigits (radix : Nat) (large : 1 < radix) {p : Char → Prop}
    (h : ∀ d < radix, p (Nat.digitChar d)) (n : Nat) : ∀ c ∈ Nat.toDigits radix n, p c := by
  obtain ⟨ds, digits, lt, -⟩ := exists_digits large n
  intro c mem
  rw [digits] at mem
  obtain ⟨d, inside, rfl⟩ := List.mem_map.1 mem
  exact h d (lt d inside)

/-- A text has as many leading digits as characters just if each of them is a digit. -/
theorem length_leadingDigits_lt_iff {radix : Nat} {text : List Char} :
    (leadingDigits radix text).length < text.length ↔ ∃ c ∈ text, digit? radix c = none := by
  induction text with
  | nil => simp [leadingDigits]
  | cons c rest ih =>
    simp only [List.mem_cons, exists_eq_or_imp, ← ih]
    rw [leadingDigits]
    split
    · rename_i d digit
      simp [digit]
    · rename_i none
      simp [none]

/-- What a whole numeral is. -/
theorem whole?_eq_some_iff {radix n : Nat} {text : List Char} : whole? radix text = some n ↔
    text ≠ [] ∧ (∀ c ∈ text, digit? radix c ≠ none) ∧
      value radix (leadingDigits radix text) = n := by
  have all : (∀ c ∈ text, digit? radix c ≠ none) ↔
      ¬ (leadingDigits radix text).length < text.length := by
    rw [length_leadingDigits_lt_iff]
    simp
  rw [all]
  simp [whole?, and_assoc]

/-- Once for each digit or once at the end: the accumulator stops at the same integer. -/
theorem saturating_eq {radix : Nat} (positive : 0 < radix) (text : List Char) :
    saturating radix text = min maxInt64 (value radix (leadingDigits radix text)) := by
  have step (n d : Nat) :
      saturatingStep radix (min maxInt64 n) d = min maxInt64 (n * radix + d) := by
    have le : maxInt64 ≤ maxInt64 * radix := Nat.le_mul_of_pos_right _ positive
    rcases Nat.le_total maxInt64 n with large | small
    · have grown : maxInt64 * radix ≤ n * radix := Nat.mul_le_mul_right radix large
      rw [saturatingStep, Nat.min_eq_left large]
      omega
    · rw [saturatingStep, Nat.min_eq_right small]
      omega
  have fold (ds : List Nat) (n : Nat) :
      ds.foldl (saturatingStep radix) (min maxInt64 n) =
        min maxInt64 (ds.foldl (fun n d => n * radix + d) n) := by
    induction ds generalizing n with
    | nil => rfl
    | cons d ds ih => rw [List.foldl_cons, List.foldl_cons, step, ih]
  exact fold _ 0

end StackLang.Numeric.Numeral
