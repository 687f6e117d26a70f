/-! # Computations that can fail

    What a computation in steps has done, once it is known to succeed.

    * `bind_eq_ok`: two steps succeed when both do.
    * `foldlM_induction`: what every step keeps, a run keeps.
-/

namespace IndexQuery

variable {ε : Type}

theorem bind_eq_ok {α β : Type} {x : Except ε α} {f : α → Except ε β} {b : β} :
    (x >>= f) = .ok b ↔ ∃ a, x = .ok a ∧ f a = .ok b := by
  cases x <;> simp [Bind.bind, Except.bind]

/-- What holds at the start of a run, and is kept by each of its steps, holds at its end. -/
theorem foldlM_induction {σ α : Type} {motive : σ → Prop} {f : σ → α → Except ε σ}
    {items : List α} {s s' : σ} (h : items.foldlM f s = .ok s') (hstart : motive s)
    (hstep : ∀ t, ∀ a ∈ items, ∀ t', motive t → f t a = .ok t' → motive t') : motive s' := by
  induction items generalizing s with
  | nil =>
    cases h
    exact hstart
  | cons a items ih =>
    rw [List.foldlM_cons] at h
    obtain ⟨next, hnext, h⟩ := bind_eq_ok.1 h
    apply ih h (hstep s a List.mem_cons_self next hstart hnext)
    intro t b hb
    exact hstep t b (List.mem_cons_of_mem a hb)

/-- What every outcome of a computation satisfies, the outcomes for a list satisfy. -/
theorem forall_of_mapM_eq_ok {α β : Type} {p : β → Prop} {f : α → Except ε β} {items : List α}
    {results : List β} (h : items.mapM f = .ok results)
    (hf : ∀ a ∈ items, ∀ b, f a = .ok b → p b) : ∀ b ∈ results, p b := by
  induction items generalizing results with
  | nil =>
    cases h
    simp
  | cons a items ih =>
    rw [List.mapM_cons] at h
    obtain ⟨b, hb, h⟩ := bind_eq_ok.1 h
    obtain ⟨rest, hrest, h⟩ := bind_eq_ok.1 h
    cases h
    have hothers := ih hrest fun a' ha' => hf a' (List.mem_cons_of_mem a ha')
    exact List.forall_mem_cons.2 ⟨hf a List.mem_cons_self b hb, hothers⟩

theorem length_of_mapM_eq_ok {α β : Type} {f : α → Except ε β} {items : List α} {results : List β}
    (h : items.mapM f = .ok results) : results.length = items.length := by
  induction items generalizing results with
  | nil =>
    cases h
    rfl
  | cons a items ih =>
    rw [List.mapM_cons] at h
    obtain ⟨b, -, h⟩ := bind_eq_ok.1 h
    obtain ⟨rest, hrest, h⟩ := bind_eq_ok.1 h
    cases h
    exact congrArg (· + 1) (ih hrest)

end IndexQuery
