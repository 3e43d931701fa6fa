import Mathlib.Data.List.Forall2

/-!
# Steps that may fail

What a row of steps gives is taken apart step by step: it succeeds exactly if its first step
does and the rest succeeds on what the first step gave. Steps may also hand on a state. A step for
each member of a list gives a list that goes along with it, `List.Forall₂`.
-/

namespace StackLang

variable {ε σ α β γ : Type}

@[simp] theorem ok_bind (a : α) (f : α → Except ε β) : (Except.ok a >>= f) = f a := rfl

@[simp] theorem error_bind (e : ε) (f : α → Except ε β) : (Except.error e >>= f) = .error e := rfl

@[simp] theorem pure_eq_ok (a : α) : (pure a : Except ε α) = .ok a := rfl

theorem bind_eq_ok_iff {x : Except ε α} {f : α → Except ε β} {b : β} :
    (x >>= f) = .ok b ↔ ∃ a, x = .ok a ∧ f a = .ok b := by
  cases x with
  | error e => simp
  | ok a => simp

theorem map_eq_ok_iff {x : Except ε α} {f : α → β} {b : β} :
    x.map f = .ok b ↔ ∃ a, x = .ok a ∧ f a = b := by
  cases x <;> simp [Except.map]

theorem bind_eq_error_iff {x : Except ε α} {f : α → Except ε β} {e : ε} :
    (x >>= f) = .error e ↔ x = .error e ∨ ∃ a, x = .ok a ∧ f a = .error e := by
  cases x with
  | error e' => simp
  | ok a => simp

theorem map_eq_error_iff {x : Except ε α} {f : α → β} {e : ε} :
    x.map f = .error e ↔ x = .error e := by
  cases x <;> simp [Except.map]

theorem run_bind_eq_ok_iff {x : StateT σ (Except ε) α} {f : α → StateT σ (Except ε) β}
    {s t : σ} {b : β} :
    (x >>= f).run s = .ok (b, t) ↔ ∃ a u, x.run s = .ok (a, u) ∧ (f a).run u = .ok (b, t) := by
  rw [StateT.run_bind, bind_eq_ok_iff]
  constructor
  · rintro ⟨⟨a, u⟩, first, rest⟩
    exact ⟨a, u, first, rest⟩
  · rintro ⟨a, u, first, rest⟩
    exact ⟨(a, u), first, rest⟩

theorem run_bind_of_ok {x : StateT σ (Except ε) α} {f : α → StateT σ (Except ε) β} {s t : σ}
    {a : α} (h : x.run s = .ok (a, t)) : (x >>= f).run s = (f a).run t := by
  rw [StateT.run_bind, h, ok_bind]

/-! ## A step for each member of a list -/

theorem exists_mapM_eq_ok_iff {f : α → Except ε β} {as : List α} :
    (∃ bs, as.mapM f = .ok bs) ↔ ∀ a ∈ as, ∃ b, f a = .ok b := by
  induction as with
  | nil => simp
  | cons a as ih =>
    rw [List.forall_mem_cons, ← ih, List.mapM_cons]
    constructor
    · rintro ⟨bs, mapped⟩
      obtain ⟨b, first, more⟩ := bind_eq_ok_iff.1 mapped
      obtain ⟨rest, others, -⟩ := bind_eq_ok_iff.1 more
      exact ⟨⟨b, first⟩, rest, others⟩
    · rintro ⟨⟨b, first⟩, rest, others⟩
      exact ⟨b :: rest, by rw [first, ok_bind, others, ok_bind, pure_eq_ok]⟩

/-- The first member whose step fails. -/
theorem exists_of_mapM_eq_error {f : α → Except ε β} {as : List α} {e : ε}
    (h : as.mapM f = .error e) :
    ∃ above a below, as = above ++ a :: below ∧ (∀ b ∈ above, ∃ c, f b = .ok c) ∧
      f a = .error e := by
  induction as with
  | nil => cases h
  | cons a as ih =>
    rw [List.mapM_cons] at h
    rcases bind_eq_error_iff.1 h with first | ⟨c, first, h⟩
    · exact ⟨[], a, as, rfl, by simp, first⟩
    rcases bind_eq_error_iff.1 h with rest | ⟨cs, -, h⟩
    · obtain ⟨above, b, below, rfl, passed, failed⟩ := ih rest
      exact ⟨a :: above, b, below, rfl, List.forall_mem_cons.2 ⟨⟨c, first⟩, passed⟩, failed⟩
    · cases h

/-- The first member at which a chain of steps fails. -/
theorem exists_of_foldlM_eq_error {f : σ → α → Except ε σ} {s : σ} {as : List α} {e : ε}
    (h : as.foldlM f s = .error e) :
    ∃ above a below t, as = above ++ a :: below ∧ above.foldlM f s = .ok t ∧
      f t a = .error e := by
  induction as generalizing s with
  | nil => cases h
  | cons a as ih =>
    rw [List.foldlM_cons] at h
    rcases bind_eq_error_iff.1 h with first | ⟨t, first, h⟩
    · exact ⟨[], a, as, s, rfl, rfl, first⟩
    · obtain ⟨above, b, below, u, rfl, passed, failed⟩ := ih h
      exact ⟨a :: above, b, below, u, rfl, by rw [List.foldlM_cons, first, ok_bind, passed], failed⟩

theorem forall₂_mapM {R : α → β → Prop} {Q : α → γ → Prop} {f : β → Except ε γ} {as : List α}
    {bs : List β} {cs : List γ} (h : List.Forall₂ R as bs)
    (step : ∀ a b c, R a b → f b = .ok c → Q a c) (mapped : bs.mapM f = .ok cs) :
    List.Forall₂ Q as cs := by
  induction h generalizing cs with
  | nil =>
    cases mapped
    exact .nil
  | cons head _ ih =>
    rw [List.mapM_cons] at mapped
    obtain ⟨c, first, more⟩ := bind_eq_ok_iff.1 mapped
    obtain ⟨rest, others, last⟩ := bind_eq_ok_iff.1 more
    cases last
    exact .cons (step _ _ c head first) (ih others)

theorem forall₂_of_mapM_eq_ok {f : α → Except ε β} {as : List α} {bs : List β}
    (h : as.mapM f = .ok bs) : List.Forall₂ (fun a b => f a = .ok b) as bs :=
  forall₂_mapM (List.forall₂_same.2 fun _ _ => rfl) (fun _ _ _ same mapped => same ▸ mapped) h

/-! ## Lists that go along with each other -/

theorem exists_mem_of_forall₂ {R : α → β → Prop} {as : List α} {bs : List β}
    (h : List.Forall₂ R as bs) {b : β} (mem : b ∈ bs) : ∃ a ∈ as, R a b := by
  induction h with
  | nil => cases mem
  | @cons a _ as _ head _ ih =>
    obtain rfl | mem := List.mem_cons.1 mem
    · exact ⟨a, List.mem_cons_self, head⟩
    · obtain ⟨a', inside, related⟩ := ih mem
      exact ⟨a', List.mem_cons_of_mem _ inside, related⟩

/-- The member at the place of another one. -/
theorem exists_getElem?_of_forall₂ {R : α → β → Prop} {as as' : List α} {a : α} {bs : List β}
    (h : List.Forall₂ R (as ++ a :: as') bs) : ∃ b, bs[as.length]? = some b ∧ R a b := by
  induction as generalizing bs with
  | nil =>
    cases h with
    | cons head _ => exact ⟨_, rfl, head⟩
  | cons _ as ih =>
    cases h with
    | cons _ tail => exact ih tail

/-- A member of a filtered list has its place in the list itself. -/
theorem exists_split_of_filter {f : α → Bool} {as front back : List α} {a : α}
    (h : as.filter f = front ++ a :: back) :
    ∃ above below, as = above ++ a :: below ∧ above.filter f = front := by
  obtain ⟨before, rest, rfl, rfl, after⟩ := List.filter_eq_append_iff.1 h
  obtain ⟨skipped, below, rfl, out, -, -⟩ := List.filter_eq_cons_iff.1 after
  have none : skipped.filter f = [] := List.filter_eq_nil_iff.2 out
  exact ⟨before ++ skipped, below, by simp, by rw [List.filter_append, none, List.append_nil]⟩

end StackLang
